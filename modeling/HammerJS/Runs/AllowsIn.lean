import HammerJS.Runs.Termination

/-!
# `m_allowsIn`

The flag that says whether `in` is an operator, over the whole parse of a source.

* `KeepsAllowsIn` — how the productions treat the flag.
* `allowsIn_restored` — they do so in every parse.
-/

namespace HammerJS

open Procs Machine Parse

variable [Platform]

/-- How the parse of a source treats `m_allowsIn`. -/
structure KeepsAllowsIn (source : List UChar) : Prop where
  /-- It is set at the entry of `parseStatement`. -/
  statement : ∀ t, Occurs source (.call .statement) t → t.regs.allowsIn = true
  /-- A production that returns, with a result or with null, whether or not `m_error` is set,
  leaves it as it was. -/
  returns : ∀ p s r s', Occurs source (.call p) s → parser.Returns p s r s' →
    s'.regs.allowsIn = s.regs.allowsIn

/-- **`m_allowsIn` is restored** by every production, and statements are parsed with it set. -/
theorem allowsIn_restored (source : List UChar) : KeepsAllowsIn source where
  statement _ h := h.pre.allowsIn rfl
  returns _ _ _ _ h hr := (h.post hr).kept.allowsIn

end HammerJS
