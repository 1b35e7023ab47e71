import Perilus.Common.Reachable
import Perilus.Gui.Helpers.WriteDigit
/-!
# Debugger — backspace after a digit

Typing writes the digit under the cursor and moves right; `backspace`
clears the digit under the cursor and then moves left. So the two in a row
clear the digit after the typed one, and the typed one stays.
-/

namespace Perilus

open Transition

namespace SimApp

/-- A digit typed, and `backspace`. -/
def typeBackspace (app : SimApp) (nibble : BitVec 4) : Option SimApp :=
  (app.editNibble (nibble.setWidth 8)).bind backspace

/-- **The typed digit is corrected** and nothing else: the cursor is back
at `p`, the digit there is 0, and every other digit is as before. -/
structure Corrected (app : SimApp) (p : ℕ) (app' : SimApp) : Prop where
  view : app'.view = app.view
  cursor : app'.CursorAt p
  typed : app'.digitAt p = some 0
  others : ∀ q < numDigits, q ≠ p → app'.digitAt q = app.digitAt q

def BackspaceCorrects (app : SimApp) (p : ℕ) (nibble : BitVec 4) : Prop :=
  ∃ app', app.typeBackspace nibble = some app' ∧ app.Corrected p app'

/-- **What the two keys leave**: the cursor back at `p`, the digit there
as typed, and the one after it cleared. -/
structure ClearsNext (app : SimApp) (p : ℕ) (nibble : BitVec 4) (app' : SimApp) : Prop where
  view : app'.view = app.view
  cursor : app'.CursorAt p
  typed : app'.digitAt p = some nibble
  next : app'.digitAt (p + 1) = some 0
  others : ∀ q < numDigits, q ≠ p → q ≠ p + 1 → app'.digitAt q = app.digitAt q

variable {app app₁ app' : SimApp} {p : ℕ} {nibble : BitVec 4}

theorem Wrote.clearsNext (htype : app.Wrote p nibble (p + 1) app₁)
    (hback : app₁.Wrote (p + 1) 0 p app') (hp : p + 1 < numDigits) :
    app.ClearsNext p nibble app' where
  view := hback.view.trans htype.view
  cursor := hback.cursor
  typed := by
    have hlt : p < numDigits := by omega
    rw [hback.digitAt p hlt, if_neg (by omega), htype.digitAt p hlt, if_pos rfl]
  next := by rw [hback.digitAt (p + 1) hp, if_pos rfl]
  others q hq hne hne' := by
    rw [hback.digitAt q hq, if_neg hne', htype.digitAt q hq, if_neg hne]

theorem typeBackspace_clearsNext (hf : app.focus = .memory) (h : app.CursorAt p)
    (hp : p + 1 < numDigits) (nibble : BitVec 4) :
    ∃ app', app.typeBackspace nibble = some app' ∧ app.ClearsNext p nibble app' := by
  obtain ⟨app₁, hedit, htype⟩ := editNibble_wrote hf h nibble
  rw [Nat.min_eq_left (by omega)] at htype
  obtain ⟨app', hclear, hback⟩ :=
    backspace_wrote (htype.focus.trans hf) htype.cursor (Nat.succ_pos p)
  refine ⟨app', ?_, htype.clearsNext hback hp⟩
  rw [typeBackspace, hedit, Option.bind_some, hclear]

/-- That is what was asked for if both digits were to be 0 anyway. -/
theorem ClearsNext.corrected_iff (h : app.ClearsNext p nibble app') (hp : p + 1 < numDigits) :
    app.Corrected p app' ↔ nibble = 0 ∧ app.digitAt (p + 1) = some 0 := by
  constructor
  · intro hcorrected
    refine ⟨Option.some.inj (h.typed.symm.trans hcorrected.typed), ?_⟩
    rw [← hcorrected.others (p + 1) hp (by omega), h.next]
  · rintro ⟨rfl, hnext⟩
    refine ⟨h.view, h.cursor, h.typed, ?_⟩
    intro q hq hne
    by_cases hq' : q = p + 1
    · rw [hq', h.next, hnext]
    · exact h.others q hq hne hq'

/-- **`backspace` corrects the digit just typed exactly if that is a 0 and
the digit after it is one already.** -/
theorem backspaceCorrects_iff (hf : app.focus = .memory) (h : app.CursorAt p)
    (hp : p + 1 < numDigits) :
    app.BackspaceCorrects p nibble ↔ nibble = 0 ∧ app.digitAt (p + 1) = some 0 := by
  obtain ⟨app', hrun, hclears⟩ := typeBackspace_clearsNext hf h hp nibble
  rw [← hclears.corrected_iff hp]
  constructor
  · rintro ⟨app'', hrun', hcorrected⟩
    obtain rfl := Option.some.inj (hrun.symm.trans hrun')
    exact hcorrected
  · intro hcorrected
    exact ⟨app', hrun, hcorrected⟩

/-- `fffffff0` in every word of memory, and a 0 typed over the last `f` of
the first. -/
theorem backspaceCorrects_zero :
    let app := { SimApp.new with
      perilus := Simulator.init.withMemory fun _ => VecInit 0xf0 0xff 0xff 0xff
      focus := .memory, memAddr := 0 }
    app.digitAt 6 = some 15 ∧ app.BackspaceCorrects 6 0 := by
  intro app
  exact ⟨by decide,
    (backspaceCorrects_iff rfl ⟨by decide, by decide⟩ (by decide)).2 ⟨rfl, by decide⟩⟩

end SimApp

/-- **A digit that stays, and one that is lost.** The first word of memory
is `ffffffff`; a 5 typed at its start and `backspace` leave `50ffffff`. -/
theorem backspace_loses_next :
    ∃ app, Reachable SimApp.exec (fun _ _ => True) SimApp.new app ∧ app.focus = .memory ∧
      app.CursorAt 0 ∧
      ((app.typeBackspace 5).bind fun app' => app'.perilus.getMemory 0) = some 0x50ffffff ∧
      ¬ app.BackspaceCorrects 0 5 := by
  let cs : List Command := [.loadPath "ones.bin" (.ok [0xff, 0xff, 0xff, 0xff]), .setFocus .memory]
  have hrun : (run SimApp.exec cs SimApp.new).map (fun app =>
      (app.focus, app.view, app.memAddr, app.memNib,
        (app.typeBackspace 5).bind fun app' => app'.perilus.getMemory 0)) =
      some (.memory, .word, 3, 0, some 0x50ffffff) := by decide
  obtain ⟨app, hreach, happ⟩ := Reachable.of_observed (fun _ _ => True) (fun _ _ _ => trivial) hrun
  simp only [Prod.mk.injEq] at happ
  obtain ⟨hfocus, hview, haddr, hnib, hword⟩ := happ
  have hat : app.CursorAt 0 := by
    refine ⟨by decide, ?_⟩
    rw [hview, haddr, hnib]
    decide
  refine ⟨app, hreach, hfocus, hat, hword, ?_⟩
  rintro ⟨app'', hrun'', hcorrected⟩
  obtain ⟨app', hrun', hclears⟩ := SimApp.typeBackspace_clearsNext hfocus hat (by decide) 5
  obtain rfl := Option.some.inj (hrun''.symm.trans hrun')
  exact absurd ((hclears.corrected_iff (by decide)).1 hcorrected).1 (by decide)

end Perilus
