import LineScript.Proofs.Formula.Depth
import LineScript.Proofs.Formula.Evaluation

set_option relaxedAutoImplicit false
set_option autoImplicit false

/-!
# Formulas without calls

A formula calls functions only by its call literals, and those of the formulas inside its collection
literals. Without any of them, the host of the evaluation is asked for variables only, so that how
it calls functions makes no difference.

## Main definitions

* `LineScript.Formula.itemFormula` — the formula of an item of a collection literal.
* `LineScript.Formula.CallFree` — no call literal at any depth.

## Main results

* `LineScript.Formula.CallFree.evaluate_eq` — the same value over any host that reads variables
  alike.
* `LineScript.Formula.CallFree.evaluate_along` — evaluation moves along every preorder that reading
  variables moves along.
-/

namespace LineScript.Formula

/-- The formula of an item of a collection literal: what follows its key, if it has one. -/
def itemFormula (item : String) : String :=
  match Pattern.keyed? item.toList with
  | some (_, src) => src
  | none => item

/-- The formula of an item is no longer than the item. -/
theorem length_itemFormula_le (item : String) : (itemFormula item).length ≤ item.length := by
  unfold itemFormula
  cases hkeyed : Pattern.keyed? item.toList with
  | none => exact le_rfl
  | some keyed =>
    obtain ⟨name, src⟩ := keyed
    have hle := Pattern.length_le_of_keyed? hkeyed
    rwa [String.length_toList] at hle

/-- A formula without call literals, also inside its collection literals. A text that is no formula
has none. -/
inductive CallFree : String → Prop
  | intro {src : String}
      (calls : ∀ ts, tokens src = .ok ts → ∀ inner, .call inner ∉ ts)
      (items : ∀ ts inner items, tokens src = .ok ts → .collection inner ∈ ts →
        splitList inner = .ok items → ∀ item ∈ items, CallFree (itemFormula item)) :
      CallFree src

/-- A formula without collection and call literals calls nothing. -/
theorem callFree_of_inner? {src : String}
    (h : ((tokens src).toOption.getD []).all (fun token => token.inner?.isNone) = true) :
    CallFree src := by
  have hinner : ∀ ts, tokens src = .ok ts → ∀ token ∈ ts, token.inner? = none := by
    intro ts htokens token hmem
    rw [htokens] at h
    exact Option.isNone_iff_eq_none.1 (List.all_eq_true.1 h token hmem)
  refine .intro (fun ts htokens inner hmem => ?_) fun ts inner items htokens hmem => ?_
  · cases hinner ts htokens _ hmem
  · cases hinner ts htokens _ hmem

variable {σ : Type} {host host' : Host σ} {inner inner' : String → Action σ Value} {src : String}

/-- A text with references in it depends on the host only by how it reads variables. -/
theorem interpolate_eq (hread : host.readVariable = host'.readVariable) (s : String) :
    interpolate host s = interpolate host' s := by
  have hsegment : segmentText host = segmentText host' := by
    funext segment
    cases segment with
    | char c => rfl
    | reference path => rw [segmentText, segmentText, hread]
  rw [interpolate, interpolate, hsegment]

/-- Adding an item depends on how its formula is evaluated, and on nothing else. -/
theorem addItem_eq {item : String} (h : inner (itemFormula item) = inner' (itemFormula item))
    (c : Collection Value) : addItem inner c item = addItem inner' c item := by
  revert h
  unfold itemFormula addItem
  cases Pattern.keyed? item.toList with
  | none =>
    intro h
    dsimp only at h ⊢
    rw [h]
  | some found =>
    intro h
    dsimp only at h ⊢
    rw [h]

/-- A collection literal depends on how the formulas of its items are evaluated, and on nothing
else. -/
theorem evaluateCollection_eq (h : ∀ items, splitList src = .ok items →
      ∀ item ∈ items, inner (itemFormula item) = inner' (itemFormula item)) :
    evaluateCollection inner src = evaluateCollection inner' src :=
  Action.ofExcept_bind_congr fun items hsplit =>
    Action.foldlM_congr (fun item hitem c => addItem_eq (h items hsplit item hitem) c) _

/-- A token other than a call is evaluated alike, if the formulas inside its literal are. -/
theorem stepToken_eq (hread : host.readVariable = host'.readVariable) {token : Token}
    (hcall : ∀ text, token ≠ .call text)
    (hitems : ∀ text items, token = .collection text → splitList text = .ok items →
      ∀ item ∈ items, inner (itemFormula item) = inner' (itemFormula item)) (stack : List Value) :
    stepToken host inner stack token = stepToken host' inner' stack token := by
  cases token with
  | call text => exact absurd rfl (hcall text)
  | collection text =>
    rw [stepToken, stepToken, evaluateCollection_eq fun items => hitems text items rfl]
  | doubleQuoted s => rw [stepToken, stepToken, interpolate_eq hread]
  | reference path => rw [stepToken, stepToken, hread]
  | _ => rfl

namespace CallFree

/-- The formulas inside collection literals are free of calls too, so this goes by induction on
them, for any bound on how deep they may nest. -/
theorem evaluateWithin_eq (hread : host.readVariable = host'.readVariable) (h : CallFree src)
    (depth : Nat) : evaluateWithin host depth src = evaluateWithin host' depth src := by
  induction h generalizing depth with
  | @intro src hcalls _ ih =>
    cases depth with
    | zero => rfl
    | succ depth =>
      refine Action.ofExcept_bind_congr fun ts htokens => ?_
      have hfold : ts.foldlM (stepToken host (evaluateWithin host depth)) [] =
          ts.foldlM (stepToken host' (evaluateWithin host' depth)) [] := by
        refine Action.foldlM_congr (fun token hmem => stepToken_eq hread ?_ ?_) _
        · rintro text rfl
          exact hcalls ts htokens text hmem
        · rintro text items rfl hsplit item hitem
          exact ih ts text items htokens hmem hsplit item hitem depth
      rw [evaluateTokensWith, evaluateTokensWith, hfold]

/-- **A formula without calls** has the same value over any host that reads variables alike. -/
theorem evaluate_eq (hread : host.readVariable = host'.readVariable) (h : CallFree src) :
    evaluate host src = evaluate host' src :=
  h.evaluateWithin_eq hread _

/-- **Evaluation without calls** moves along every preorder that reading variables moves along. -/
theorem evaluate_along {R : σ → σ → Prop} [IsPreorder σ R]
    (hread : ∀ path, Action.Along R (host.readVariable path)) (h : CallFree src) :
    Action.Along R (evaluate host src) := by
  let refusing : Host σ := { host with callFunction := fun _ _ => throw .internal }
  have hcall : ∀ name args, Action.Along R (refusing.callFunction name args) := fun _ _ => .throw _
  have heq : evaluate host src = evaluate refusing src := h.evaluate_eq rfl
  rw [heq]
  refine Formula.evaluate_along ?_ hcall src
  exact hread

end CallFree

end LineScript.Formula
