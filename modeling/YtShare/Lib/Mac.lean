/-
# Message authentication codes, symbolically

A tag is either the code of a message under a key or bytes that are the code of
nothing.  Codes are free: two of them are equal only when their keys and messages
are, and the only way to come by one is to have the key or to have seen it.

`Known` is what an adversary can send as a tag who has seen some tags and lacks
some keys.  A code under one of these keys that it can send is one that it has
seen (`Known.mem_of_secret`).
-/

import Mathlib.Data.List.Basic
import Mathlib.Data.Nat.Notation

namespace YtShare
namespace Lib

/-- A tag. -/
inductive Tag (κ μ : Type)
  /-- the code of a message under a key -/
  | mac (key : κ) (message : μ)
  /-- bytes that are the code of nothing -/
  | noise (bytes : ℕ)
deriving DecidableEq

namespace Tag

variable {κ μ : Type} {secret : κ → Prop} {seen seen' : List (Tag κ μ)} {t : Tag κ μ}

/-- The tags that an adversary can send who has seen `seen` and lacks the keys
that are `secret`. -/
inductive Known (secret : κ → Prop) (seen : List (Tag κ μ)) : Tag κ μ → Prop
  | seen {t : Tag κ μ} (h : t ∈ seen) : Known secret seen t
  | own {k : κ} (m : μ) (h : ¬secret k) : Known secret seen (.mac k m)
  | noise (n : ℕ) : Known secret seen (.noise n)

/-- **No forgery:** a code under a secret key was seen. -/
theorem Known.mem_of_secret {k : κ} {m : μ} (h : Known secret seen (.mac k m)) (hk : secret k) :
    .mac k m ∈ seen := by
  cases h with
  | seen h => exact h
  | own _ h => exact absurd hk h

instance [DecidableEq κ] [DecidableEq μ] [DecidablePred secret] :
    DecidablePred (Known secret seen)
  | .noise n => isTrue (.noise n)
  | .mac k m =>
      decidable_of_iff (.mac k m ∈ seen ∨ ¬secret k) <| by
        constructor
        · rintro (h | h)
          · exact .seen h
          · exact .own m h
        · intro h
          by_cases hk : secret k
          · exact .inl (h.mem_of_secret hk)
          · exact .inr hk

end Tag

end Lib
end YtShare
