import Mathlib.Data.List.Basic
import Mathlib.Data.List.Nodup

/-!
# Keys made of fields

Texts joined with a separator that no field contains determine their fields (`intercalate_inj`), and
the decimal text of a number determines the number. `freshKeys raw alt l` gives each element of `l`
its raw key, or its alternative key where an earlier element has taken the raw one; no two of the
keys are equal when the alternative keys are those of one element each and are no raw keys
(`freshKeys_nodup`).
-/

namespace Euvieouvi

section Fields
variable {α : Type*} [DecidableEq α] {sep : α} {fields fields' : List (List α)}

theorem intercalate_inj (h : ∀ f ∈ fields, sep ∉ f) (h' : ∀ f ∈ fields', sep ∉ f)
    (hne : fields ≠ [])
    (hne' : fields' ≠ []) (heq : [sep].intercalate fields = [sep].intercalate fields') :
    fields = fields' := by
  have hsplit := congrArg (List.splitOn sep) heq
  rwa [List.splitOn_intercalate sep h hne, List.splitOn_intercalate sep h' hne'] at hsplit

omit [DecidableEq α] in
theorem not_mem_intercalate {c : α} {glue : List α} {parts : List (List α)} (hglue : c ∉ glue)
    (hparts : ∀ f ∈ parts, c ∉ f) : c ∉ glue.intercalate parts := by
  induction parts with
  | nil => rw [List.intercalate_nil]; exact List.not_mem_nil
  | cons f parts ih =>
    have hf := hparts f List.mem_cons_self
    cases parts with
    | nil => rwa [List.intercalate_singleton]
    | cons f' parts =>
      rw [List.intercalate_cons_cons, List.mem_append, List.mem_append]
      rintro ((h | h) | h)
      exacts [hf h, hglue h, ih (fun f hf => hparts f (List.mem_cons_of_mem _ hf)) h]

omit [DecidableEq α] in
theorem mem_of_mem_splitOnP {p : α → Bool} {c : α} {l part : List α} (hpart : part ∈ l.splitOnP p)
    (hc : c ∈ part) :
    c ∈ l := by
  induction l generalizing part with
  | nil =>
    rw [List.splitOnP_nil, List.mem_singleton] at hpart
    exact hpart ▸ hc
  | cons a l ih =>
    rw [List.splitOnP_cons_eq_if_modifyHead] at hpart
    split at hpart
    · rcases List.mem_cons.1 hpart with rfl | hpart
      · cases hc
      · exact List.mem_cons_of_mem _ (ih hpart hc)
    · cases hl : l.splitOnP p with
      | nil => exact absurd hl (List.splitOnP_ne_nil _ _)
      | cons first rest =>
        rw [hl] at hpart ih
        rcases List.mem_cons.1 hpart with rfl | hpart
        · rcases List.mem_cons.1 hc with rfl | hc
          · exact List.mem_cons_self
          · exact List.mem_cons_of_mem _ (ih List.mem_cons_self hc)
        · exact List.mem_cons_of_mem _ (ih (List.mem_cons_of_mem _ hpart) hc)

end Fields

theorem toList_toString_nat (n : Nat) : (toString n).toList = Nat.toDigits 10 n :=
  String.toList_ofList

theorem toString_nat_inj {m n : Nat} (h : (toString m).toList = (toString n).toList) : m = n := by
  rw [toList_toString_nat, toList_toString_nat] at h
  have hdigits := congrArg (Nat.ofDigitChars 10 · 0) h
  simpa only [Nat.ofDigitChars_toDigits (by decide : 1 < 10) (by decide : 10 ≤ 10)] using hdigits

theorem not_mem_toString_nat {c : Char} (hc : c.isDigit = false) (n : Nat) :
    c ∉ (toString n).toList := by
  rw [toList_toString_nat]
  intro h
  rw [Nat.isDigit_of_mem_toDigits (by decide) (by decide) h] at hc
  cases hc

section Fresh
variable {γ κ : Type*} [DecidableEq κ] {raw alt : γ → κ}

/-- The key of `x` where `used` are taken. -/
def freshKey (raw alt : γ → κ) (used : List κ) (x : γ) : κ := if raw x ∈ used then alt x else raw x

def freshKeys (raw alt : γ → κ) (used : List κ) : List γ → List κ
  | [] => []
  | x :: l => freshKey raw alt used x :: freshKeys raw alt (freshKey raw alt used x :: used) l

theorem freshKey_eq (used : List κ) (x : γ) : freshKey raw alt used x = raw x ∨
    freshKey raw alt used x = alt x := by
  unfold freshKey
  split
  exacts [.inr rfl, .inl rfl]

theorem freshKey_notMem {used : List κ} {x : γ} (h : alt x ∉ used) :
    freshKey raw alt used x ∉ used := by
  unfold freshKey
  split
  next _ => exact h
  next hraw => exact hraw

theorem freshKeys_nodup {l : List γ} {used : List κ} (hraw : ∀ x ∈ l, ∀ y ∈ l, raw x ≠ alt y)
    (halt : (l.map alt).Nodup) (hused : ∀ x ∈ l, alt x ∉ used) :
    (freshKeys raw alt used l).Nodup ∧ ∀ k ∈ freshKeys raw alt used l, k ∉ used := by
  induction l generalizing used with
  | nil => exact ⟨List.nodup_nil, by simp [freshKeys]⟩
  | cons x l ih =>
    rw [List.map_cons, List.nodup_cons] at halt
    have hx : freshKey raw alt used x ∉ used := freshKey_notMem (hused x List.mem_cons_self)
    have hnext : ∀ y ∈ l, alt y ∉ freshKey raw alt used x :: used := by
      intro y hy hmem
      rcases List.mem_cons.1 hmem with heq | hmem
      · have hkey : freshKey raw alt used x = raw x ∨ freshKey raw alt used x = alt x :=
          freshKey_eq used x
        rcases hkey with hk | hk
        · exact hraw x List.mem_cons_self y (List.mem_cons_of_mem _ hy) (hk ▸ heq.symm)
        · exact halt.1 (List.mem_map.2 ⟨y, hy, heq.trans hk⟩)
      · exact hused y (List.mem_cons_of_mem _ hy) hmem
    obtain ⟨hnodup, hfresh⟩ := ih
      (fun y hy z hz => hraw y (List.mem_cons_of_mem _ hy) z (List.mem_cons_of_mem _ hz))
        halt.2 hnext
    refine ⟨List.nodup_cons.2 ⟨fun hmem => hfresh _ hmem List.mem_cons_self, hnodup⟩,
      fun k hk hmem => ?_⟩
    rcases List.mem_cons.1 hk with rfl | hk
    · exact hx hmem
    · exact hfresh k hk (List.mem_cons_of_mem _ hmem)

end Fresh

end Euvieouvi
