import Euvieouvi.Persist.StatementInvariants

/-!
# Invariants about references

What `persist_media` does to references is to add one or to flush assignments to one, and both show
it as available. A merge gives references another item. So an invariant about references that these
statements keep, all the statements of a call keep (`ListedInvariant.statements`).
-/

namespace Euvieouvi

open Database

/-- It is about the references, and kept when references change their item. -/
structure MergedInvariant (I : Database → Prop) : Prop where
  of_table : ∀ {db db' : Database}, db'.sourceMediaRefs = db.sourceMediaRefs → I db → I db'
  moveReferences : ∀ {db : Database} (w l : Nat), I db → I (db.moveReferences w l)

/-- It is kept when references are shown at this moment, too. -/
structure ListedInvariant (now : Time) (I : Database → Prop) : Prop extends MergedInvariant I where
  insert : ∀ {db : Database} {r : SourceMediaRef}, r.available = true → r.unavailableSince = none →
    r.updatedAt = now → I db →
    I (db.insertSourceMediaRef r)
  save : ∀ {db : Database} (i : Nat) (f : Assignment SourceMediaRef.id),
    (∀ r : SourceMediaRef, (f r).available = true ∧ (f r).unavailableSince = none) → I db →
      I (db.saveSourceMediaRef now i f)

namespace MergedInvariant
variable {I : Database → Prop} (hI : MergedInvariant I)
include hI

theorem of_frame {written : List TableName} {db db' : Database} (hframe : Frame written db db')
    (hw : .sourceMediaRefs ∉ written) :
    I db → I db' :=
  hI.of_table (hframe .sourceMediaRefs hw)

theorem mergeItem {db : Database} (now : Time) (w l : Nat) (h : I db) :
    I (db.mergeItem now w l) := by
  unfold Database.mergeItem
  have hfill : I (db.fillMissing now w l) :=
    hI.of_frame (db.fillMissing_spec now w l).1 (by decide) h
  generalize db.fillMissing now w l = d₁ at hfill ⊢
  have hdrop : I (d₁.dropContradictedIdentifiers w l) :=
    hI.of_frame (d₁.dropContradictedIdentifiers_frame w l) (by decide) hfill
  generalize d₁.dropContradictedIdentifiers w l = d₂ at hdrop ⊢
  have hmeta : I (d₂.moveMetadata w l) := hI.of_frame (d₂.moveMetadata_frame w l) (by decide) hdrop
  generalize d₂.moveMetadata w l = d₃ at hmeta ⊢
  have hstates : I (d₃.mergeWatchStates w l) :=
    hI.of_frame (d₃.mergeWatchStates_frame w l) (by decide) hmeta
  generalize d₃.mergeWatchStates w l = d₄ at hstates ⊢
  have hevents : I (d₄.moveWatchEvents w l) :=
    hI.of_frame (updateWatchEvents_frame _ _) (by decide) hstates
  generalize d₄.moveWatchEvents w l = d₅ at hevents ⊢
  have hrefs : I (d₅.moveReferences w l) := hI.moveReferences w l hevents
  generalize d₅.moveReferences w l = d₆ at hrefs ⊢
  have hchildren : I (d₆.moveChildren w l) :=
    hI.of_frame (updateMediaItems_frame _ _) (by decide) hrefs
  generalize d₆.moveChildren w l = d₇ at hchildren ⊢
  exact hI.of_frame (deleteMediaItem_frame d₇ l) (by decide) hchildren

end MergedInvariant

/-- The other statements write no reference. -/
theorem ListedInvariant.statements {now : Time} {I : Database → Prop} (hI : ListedInvariant now I) :
    StatementInvariant now (fun _ => True) I where
  untouched hframe hw := hI.of_frame hframe (hw .sourceMediaRefs (by decide))
  insertItem _ := hI.of_frame (insertMediaItem_frame _) (by decide)
  saveItem _ _ := hI.of_frame (updateMediaItems_frame _ _) (by decide)
  insertReference hav hsince hstamp _ := hI.insert hav hsince hstamp
  saveReference i f hf := hI.save i f fun r => ⟨(hf r).1, (hf r).2.1⟩
  insertImage _ := hI.of_table rfl
  updateImages _ _ _ := hI.of_table rfl
  insertState _ := hI.of_frame (insertWatchState_frame _) (by decide)
  saveState _ _ := hI.of_frame (updateWatchStates_frame _ _) (by decide)
  merge w l := hI.mergeItem now w l

end Euvieouvi
