import LineScript.Formula.Evaluation
import LineScript.Proofs.Action

set_option relaxedAutoImplicit false
set_option autoImplicit false

/-!
# Evaluation over related hosts

Evaluating a formula touches the state of its host only by reading variables and calling functions.
So whatever these two keep, evaluation keeps; and if they can be matched over another host, the
whole evaluation can.

## Main definitions

* `LineScript.Host.Follows` — a host that matches every answer of another one.

## Main results

* `LineScript.Formula.evaluate_follows`, `LineScript.Formula.evaluateList_follows` — evaluation over
  a host is matched by evaluation over any host that follows it.
* `LineScript.Formula.evaluate_along` — evaluation moves along every preorder that reading and
  calling move along.
-/

namespace LineScript

open LineScript.Action (Along Follows)

variable {σ τ : Type}

/-- The host `host'` matches every answer of `host`, where `I` relates their states. -/
structure Host.Follows (I : σ → τ → Prop) (host : Host σ) (host' : Host τ) : Prop where
  readVariable : ∀ path, Action.Follows I (host.readVariable path) (host'.readVariable path)
  callFunction : ∀ name args,
    Action.Follows I (host.callFunction name args) (host'.callFunction name args)

namespace Formula

section Follows

variable {I : σ → τ → Prop} {host : Host σ} {host' : Host τ} (hhost : host.Follows I host')
  {inner : String → Action σ Value} {inner' : String → Action τ Value}
  (hinner : ∀ src, Follows I (inner src) (inner' src))

include hhost in
/-- A text with references in it follows, if reading variables does. -/
theorem interpolate_follows (s : String) :
    Follows I (interpolate host s) (interpolate host' s) := by
  unfold interpolate
  refine .bind (.mapM (fun segment => ?_) _) fun texts => .pure _
  cases segment with
  | char c => exact .pure _
  | reference path => exact .bind (hhost.readVariable path) fun v => .pure _

include hinner in
/-- The items of a list follow, if evaluating a formula does. -/
theorem evaluateItems_follows (src : String) :
    Follows I (evaluateItems inner src) (evaluateItems inner' src) :=
  .bind (.ofExcept _) fun items => .mapM hinner items

include hinner in
/-- A collection literal follows, if evaluating a formula does. -/
theorem evaluateCollection_follows (src : String) :
    Follows I (evaluateCollection inner src) (evaluateCollection inner' src) := by
  refine .bind (.ofExcept _) fun items => .foldlM (fun c item => ?_) items _
  unfold addItem
  split
  · exact .bind (hinner _) fun v => .pure _
  · exact .bind (hinner _) fun v => .pure _

include hhost hinner in
/-- A call follows, if evaluating its arguments and calling functions do. -/
theorem evaluateCall_follows (src : String) :
    Follows I (evaluateCall host inner src) (evaluateCall host' inner' src) := by
  unfold evaluateCall
  split
  · exact .throw _
  · exact hhost.callFunction _ _
  · exact .bind (evaluateItems_follows hinner _) fun vs => hhost.callFunction _ vs

include hhost hinner in
/-- One token: the operands are taken from the same stack, so the new stacks agree. -/
theorem stepToken_follows (stack : List Value) (token : Token) :
    Follows I (stepToken host inner stack token) (stepToken host' inner' stack token) := by
  cases token with
  | operator op =>
    match stack with
    | [] => exact .throw _
    | [_] => exact .throw _
    | rhs :: lhs :: rest => exact .bind (.ofExcept _) fun v => .pure _
  | negation =>
    match stack with
    | [] => exact .throw _
    | v :: rest => exact .pure _
  | word s => exact .throw _
  | doubleQuoted s => exact .bind (interpolate_follows hhost s) fun text => .pure _
  | collection src => exact .bind (evaluateCollection_follows hinner src) fun c => .pure _
  | call src => exact .bind (evaluateCall_follows hhost hinner src) fun v => .pure _
  | reference path => exact .bind (hhost.readVariable path) fun v => .pure _
  | _ => exact .pure _

include hhost hinner in
/-- The tokens of a formula follow, taken in one after another. -/
theorem evaluateTokensWith_follows (tokens : List Token) :
    Follows I (evaluateTokensWith host inner tokens) (evaluateTokensWith host' inner' tokens) := by
  refine .bind (.foldlM (stepToken_follows hhost hinner) tokens []) fun stack => ?_
  split
  · exact .pure _
  · exact .throw _

include hhost in
/-- Literals hold formulas of their own, so this goes by induction on how deep they may nest. -/
theorem evaluateWithin_follows (depth : Nat) (src : String) :
    Follows I (evaluateWithin host depth src) (evaluateWithin host' depth src) := by
  induction depth generalizing src with
  | zero => exact .stop _ _
  | succ depth ih =>
    exact .bind (.ofExcept _) fun tokens => evaluateTokensWith_follows hhost ih tokens

include hhost in
/-- **Evaluation is matched** over every host that matches reading and calling. -/
theorem evaluate_follows (src : String) : Follows I (evaluate host src) (evaluate host' src) :=
  evaluateWithin_follows hhost _ src

include hhost in
/-- A list of formulas follows. -/
theorem evaluateList_follows (src : String) :
    Follows I (evaluateList host src) (evaluateList host' src) :=
  evaluateItems_follows (evaluate_follows hhost) src

end Follows

section Along

variable {R : σ → σ → Prop} [IsPreorder σ R] {host : Host σ}
  (hread : ∀ path, Along R (host.readVariable path))
  (hcall : ∀ name args, Along R (host.callFunction name args))

include hread hcall in
/-- **Evaluation moves along** every preorder that reading variables and calling functions move
along. -/
theorem evaluate_along (src : String) : Along R (evaluate host src) :=
  Action.along_of_follows fun r =>
    evaluate_follows ⟨fun path => (hread path).follows r, fun n args =>
      (hcall n args).follows r⟩ src

end Along

end Formula

end LineScript
