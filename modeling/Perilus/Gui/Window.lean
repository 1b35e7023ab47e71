import Perilus.Gui.Bounds
import Perilus.Gui.Helpers.Machine
import Perilus.Gui.TraceNames
import Perilus.Simulator.Trace
/-!
# Debugger — whole sessions of the window

In every state a session passes through the cursors are in bounds, and a
trace is open just when the window says so, with every time from zero up
to the present one in it (`Sound`). Every subtraction of the panes is checked,
and the one panic left is in the name of the trace file
(`session_eq_none_iff`).
-/

namespace Perilus

open Transition Gregorian

/-! ## The trace under the commands -/

namespace Simulator

/-- **The trace is as the window has it**: it holds every time up to the
present, or there is none. -/
def TraceIs (p : Simulator) : Bool → Prop
  | true => p.Tracing p.time
  | false => p.vcd = none

variable {p p' : Simulator} {on : Bool}

theorem Tracing.traceIs {n : ℕ} (h : p.Tracing n) : p.TraceIs true := ⟨h.time ▸ h.vcd, rfl⟩

theorem TraceIs.congr (h : p.TraceIs on) (hvcd : p'.vcd = p.vcd) (htime : p'.time = p.time) :
    p'.TraceIs on := by
  cases on with
  | false => exact hvcd.trans h
  | true =>
    refine ⟨?_, rfl⟩
    rw [hvcd, htime]
    exact h.vcd

theorem TraceIs.vcd_eq (h : p.TraceIs on) :
    p.vcd = if on then some (List.range p.time) else none := by
  cases on with
  | false => exact h
  | true => exact h.vcd

theorem TraceIs.pulseClock (h : p.TraceIs on) : p.pulseClock.TraceIs on := by
  cases on with
  | true => exact (Tracing.pulseClock h).traceIs
  | false =>
    have hvcd : p.vcd = none := h
    rw [TraceIs, pulseClock_vcd, hvcd, Option.map_none]

theorem TraceIs.resetPulse (h : p.TraceIs on) : p.resetPulse.TraceIs on := by
  cases on with
  | true => exact (Tracing.resetPulse h).traceIs
  | false =>
    have htime : p.resetTime.vcd = none := by
      rw [resetTime]
      split <;> exact h
    have hoff : (p.resetTime.setReset true).TraceIs false := htime
    exact hoff.pulseClock

end Simulator

theorem Moves.traceIs {p p' : Simulator} {on : Bool} (h : Moves p p') (ht : p.TraceIs on) :
    p'.TraceIs on := by
  cases h with
  | pulses n =>
    induction n with
    | zero => exact ht
    | succ n ih =>
      rw [Function.iterate_succ_apply']
      exact ih.pulseClock
  | resetPulse => exact ht.resetPulse
  | _ => exact ht.congr rfl rfl

/-! ## Painting -/

theorem exists_mapM {α β : Type} {f : α → Option β} (as : List α)
    (h : ∀ a ∈ as, ∃ b, f a = some b) : ∃ bs, as.mapM f = some bs := by
  induction as with
  | nil => exact ⟨[], rfl⟩
  | cons a as ih =>
    obtain ⟨b, hb⟩ := h a List.mem_cons_self
    obtain ⟨bs, hbs⟩ := ih fun a' ha' => h a' (List.mem_cons_of_mem a ha')
    exact ⟨b :: bs, by rw [List.mapM_cons, hb, hbs]; rfl⟩

theorem rowDigits_eq (view : ViewMode) :
    rowDigits view = (List.range 64).map fun col => (digitOffset view col, col % 2) := by
  cases view <;> decide

namespace SimApp

variable (app : SimApp) {row : ℕ}

/-- A byte of a row. -/
theorem exists_rowByte (hrow : row < totalRows) {offset : ℕ} (ho : offset < bytesPerRow) :
    ∃ byte, app.perilus.getMemoryByte
      (BitVec.ofNat 32 (row * bytesPerRow) + BitVec.ofNat 32 offset) = some byte := by
  have hrows : totalRows = 131072 := rfl
  have hsize : Simulator.memorySizeBytes = 4194304 := rfl
  rw [bytesPerRow] at ho ⊢
  refine ⟨_, app.perilus.getMemoryByte_flat ?_⟩
  rw [BitVec.toNat_add, BitVec.toNat_ofNat, BitVec.toNat_ofNat]
  omega

theorem exists_asciiChars (hrow : row < totalRows) : ∃ chars, app.asciiChars row = some chars := by
  have hrows : totalRows = 131072 := rfl
  have hwords : Simulator.memorySizeWords = 1048576 := rfl
  rw [asciiChars]
  split
  · obtain ⟨words, hmap⟩ := exists_mapM (List.range wordsPerRow)
      (f := fun word => app.perilus.getMemory (row * wordsPerRow + word)) fun word hword => by
        have hlt := List.mem_range.1 hword
        rw [wordsPerRow] at hlt ⊢
        exact ⟨_, app.perilus.getMemory_of_lt (by omega)⟩
    rw [hmap]
    exact ⟨_, rfl⟩
  · refine exists_mapM _ fun i hi => ?_
    obtain ⟨byte, hbyte⟩ := app.exists_rowByte hrow (List.mem_range.1 hi)
    rw [hbyte]
    exact ⟨_, rfl⟩

/-- There are groups to put gaps between. -/
theorem exists_gaps : ∃ gaps, checkedSub (64 / app.group) 1 = some gaps := by
  rw [group]
  split <;> exact ⟨_, rfl⟩

/-- **A row of memory can be painted.** -/
theorem exists_memoryRow (hrow : row < totalRows) :
    ∃ painted, app.memoryRow row = some painted := by
  obtain ⟨digits, hdigits⟩ := exists_mapM (rowDigits app.view)
    (f := app.digitGlyph (BitVec.ofNat 32 (row * bytesPerRow))) fun place hplace => by
      rw [rowDigits_eq] at hplace
      obtain ⟨col, hcol, rfl⟩ := List.mem_map.1 hplace
      obtain ⟨byte, hbyte⟩ :=
        app.exists_rowByte hrow (digitOffset_lt app.view (List.mem_range.1 hcol))
      rw [digitGlyph]
      dsimp only
      rw [hbyte]
      exact ⟨_, rfl⟩
  obtain ⟨chars, hchars⟩ := app.exists_asciiChars hrow
  obtain ⟨gaps, hgaps⟩ := app.exists_gaps
  rw [memoryRow]
  dsimp only
  rw [hgaps, hdigits, hchars]
  exact ⟨_, rfl⟩

/-- The digits of a cell are eight. -/
theorem cellGlyph_eq (i : Fin 32) (value : BitVec 32) (color : Ink) {nib : ℕ} (h : nib ≤ 7) :
    app.cellGlyph i value color nib = some
      ⟨hexChar (((value >>> ((7 - nib) * 4)) &&& 0xf).setWidth 8),
        if app.focus = .registers ∧ i.val = app.regIndex ∧ nib = app.regNib then .cursor
        else color⟩ :=
  checkedSub_bind h _

/-- **A cell of the register grid can be painted.** -/
theorem exists_registerCell (names : Bool) (i : Fin 32) :
    ∃ cell, app.registerCell names i = some cell := by
  have hdigits : ∀ value color, ∃ digits,
      (List.range 8).mapM (app.cellGlyph i value color) = some digits := fun value color =>
    exists_mapM _ fun nib hnib =>
      ⟨_, app.cellGlyph_eq i value color (Nat.le_of_lt_succ (List.mem_range.1 hnib))⟩
  rw [registerCell]
  generalize (if i = 0 then ("pc", app.currentPc, Ink.pc)
    else (if names then registerAlias i else "x" ++ toString i.val,
      app.perilus.getRegisters i, Ink.text)) = cell
  obtain ⟨digits, hcell⟩ := hdigits cell.2.1 cell.2.2
  dsimp only
  rw [hcell]
  exact ⟨_, rfl⟩

end SimApp

theorem Window.exists_paintedCells (w : Window) : ∃ painted, w.paintedCells = some painted :=
  exists_mapM _ fun i _ => w.exists_registerCell w.showAliases i

theorem Window.exists_paintedRows (w : Window) (hview : w.memViewport.2 ≤ SimApp.totalRows) :
    ∃ painted, w.paintedRows = some painted := by
  refine exists_mapM _ fun row hrow => w.exists_memoryRow ?_
  have hlt := List.mem_range'_1.1 hrow
  omega

theorem Window.exists_screen (w : Window) (hview : w.memViewport.2 ≤ SimApp.totalRows) :
    ∃ s, w.screen = some s := by
  obtain ⟨cells, hcells⟩ := w.exists_paintedCells
  obtain ⟨rows, hrows⟩ := w.exists_paintedRows hview
  rw [Window.screen, hcells, hrows]
  exact ⟨_, rfl⟩

/-! ## Events -/

/-- The frames are made of such events. -/
def Event.Gui : Event → Prop
  | .command (.simulator _) | .command (.showRows _) => False
  | _ => True

namespace Window

/-- **The cursors are in bounds and the trace is as the window has it.** -/
structure Sound (w : Window) : Prop where
  inBounds : w.InBounds
  trace : w.perilus.TraceIs w.tracing

variable {w w' : Window}

theorem lookAtPc_eq (w : Window) : ∃ last row,
    w.lookAtPc = { w with followPcLast := last, scrollToRow := row } := by
  rw [lookAtPc]
  split
  · dsimp only
    split <;> exact ⟨_, _, rfl⟩
  · exact ⟨_, _, rfl⟩

namespace Sound

theorem new : Window.new.Sound := ⟨SimApp.new_inBounds, rfl⟩

/-- Opening a trace, or failing to. -/
theorem openTrace (h : w.Sound) (host : Host) (traceFile : String) :
    (w.openTrace host traceFile).Sound := by
  rw [Window.openTrace]
  by_cases hcan : Simulator.CanStart (some host.created) (fileBytes traceFile)
  · rw [Simulator.startTrace_of_canStart _ hcan]
    exact ⟨h.inBounds.congr rfl, Simulator.Tracing.startVcd.traceIs⟩
  · obtain ⟨e, he⟩ := Simulator.startTrace_of_not_canStart w.perilus hcan
    rw [he]
    exact ⟨h.inBounds.congr rfl, h.trace⟩

theorem toggleTrace (h : w.Sound) {host : Host}
    (hhost : w.tracing = false → host.traceFile ≠ none) :
    ∃ w', w.toggleTrace host = some w' ∧ w'.Sound := by
  rw [Window.toggleTrace]
  split
  · exact ⟨_, rfl, h.inBounds.congr rfl, rfl⟩
  · next hon =>
    obtain ⟨traceFile, hfile⟩ :=
      Option.ne_none_iff_exists'.1 (hhost (Bool.eq_false_of_not_eq_true hon))
    rw [hfile]
    exact ⟨_, rfl, h.openTrace host traceFile⟩

/-- The cells are painted. -/
theorem showRegisters (h : w.Sound) : ∃ w', w.showRegisters = some w' ∧ w'.Sound := by
  obtain ⟨painted, hpainted⟩ := w.exists_paintedCells
  rw [Window.showRegisters, hpainted]
  exact ⟨w, rfl, h⟩

/-- The rows are painted. The scroll target need not be one before it is
taken. -/
theorem showMemory (h : w.Sound) (rows : Rows) :
    ∃ w', w.showMemory rows = some w' ∧ w'.Sound := by
  obtain ⟨last, row, hlook⟩ := w.lookAtPc_eq
  obtain ⟨painted, hpainted⟩ := Window.exists_paintedRows
    { w.lookAtPc with scrollToRow := none, memViewport := (rows.first, rows.last) }
    rows.le_totalRows
  rw [Window.showMemory, hpainted]
  refine ⟨_, rfl, ?_⟩
  rw [hlook]
  refine ⟨⟨h.inBounds.memAddr, h.inBounds.memNib, h.inBounds.regIndex, h.inBounds.regNib, ?_,
    rows.le, rows.le_totalRows⟩, h.trace⟩
  intro row hrow
  cases hrow

theorem command (h : w.Sound) {c : Command} (hc : (Event.command c).Gui) :
    ∃ w', w.exec (.command c) = some w' ∧ w'.Sound := by
  have hgui : GuiCommand w.toSimApp c := by
    cases c with
    | simulator op => exact hc
    | showRows rows => exact hc.elim
    | _ => trivial
  obtain ⟨app, hexec, hin⟩ := h.inBounds.exec hgui
  refine ⟨{ w with toSimApp := app }, ?_, hin, (Moves.of_exec hexec).traceIs h.trace⟩
  rw [Window.exec, hexec, Option.map_some]

/-- **An event**, for which the trace file has a name if it needs one. -/
theorem exec (h : w.Sound) {e : Event} (he : e.Gui)
    (hnamed : ∀ host, e = .toggleTrace host → w.tracing = false → host.traceFile ≠ none) :
    ∃ w', w.exec e = some w' ∧ w'.Sound := by
  cases e with
  | command c => exact h.command he
  | toggleTrace host => exact h.toggleTrace (hnamed host rfl)
  | showRegisters => exact h.showRegisters
  | showMemory rows => exact h.showMemory rows
  | _ => exact ⟨_, rfl, h.inBounds.congr rfl, h.trace⟩

theorem exec_eq_none_iff (h : w.Sound) {e : Event} (he : e.Gui) : w.exec e = none ↔
    ∃ host, e = .toggleTrace host ∧ w.tracing = false ∧ host.traceFile = none := by
  constructor
  · intro hnone
    by_contra hno
    obtain ⟨w', hw', -⟩ := h.exec he fun host hhost hoff hfile => hno ⟨host, hhost, hoff, hfile⟩
    cases hnone.symm.trans hw'
  · rintro ⟨host, rfl, hoff, hfile⟩
    change w.toggleTrace host = none
    rw [Window.toggleTrace, hoff, hfile]
    rfl

end Sound

end Window

/-! ## Frames -/

/-- They all are. -/
def Event.AllGui (es : List Event) : Prop := ∀ e ∈ es, e.Gui

namespace Event.AllGui

variable {α : Type} {es es' : List Event}

theorem append (h : AllGui es) (h' : AllGui es') : AllGui (es ++ es') :=
  List.forall_mem_append.2 ⟨h, h'⟩

theorem cons {e : Event} (he : e.Gui) (h : AllGui es) : AllGui (e :: es) :=
  List.forall_mem_cons.2 ⟨he, h⟩

theorem listed {table : List (Bool × Event)} (h : AllGui (table.map Prod.snd)) :
    AllGui (Event.listed table) := by
  intro e he
  obtain ⟨entry, hentry, rfl⟩ := List.mem_map.1 he
  exact h _ (List.mem_map_of_mem (List.mem_filter.1 hentry).1)

theorem map {f : α → Event} {as : List α} (h : ∀ a, (f a).Gui) : AllGui (as.map f) := by
  intro e he
  obtain ⟨a, -, rfl⟩ := List.mem_map.1 he
  exact h a

theorem flatMap {f : α → List Event} {as : List α} (h : ∀ a, AllGui (f a)) :
    AllGui (as.flatMap f) := by
  intro e he
  obtain ⟨a, -, hmem⟩ := List.mem_flatMap.1 he
  exact h a e hmem

end Event.AllGui

open Event

theorem Actions.gui (a : Actions) : AllGui a.events := by
  refine .append (.append (.append (.append (.append ?_ ?_) ?_) ?_) ?_) ?_
  · exact .listed (by simp [AllGui, Gui])
  · exact .map fun _ => trivial
  · exact .listed (by simp [AllGui, Gui])
  · exact .map fun _ => trivial
  · exact .map fun _ => trivial
  · exact .listed (by simp [AllGui, Gui])

theorem Controls.gui (c : Controls) : AllGui c.events := by
  refine .append (.append (.append ?_ ?_) ?_) ?_
  · exact .listed (by simp [AllGui, Gui])
  · exact .map fun _ => trivial
  · exact .map fun _ => trivial
  · exact .map fun _ => trivial

theorem Click.gui (c : Click) : AllGui c.events :=
  .cons trivial (.listed (by simp [AllGui, Gui]))

theorem MemoryPane.gui (p : MemoryPane) : AllGui p.events := by
  refine .append (.append (.append ?_ ?_) (.cons trivial ?_)) (.cons trivial ?_)
  · exact .listed (by simp [AllGui, Gui])
  · exact .map fun _ => trivial
  · exact .listed (by simp [AllGui, Gui])
  · exact .flatMap Click.gui

theorem Frame.gui (f : Frame) : AllGui f.events := by
  refine .append (.append (.append (.cons trivial ?_) (.cons trivial ?_)) f.controls.gui)
    f.memory.gui
  · exact .flatMap Actions.gui
  · exact .map fun _ => trivial

/-! ## Sessions -/

namespace Window

variable (file : Option (String × Except String (List (BitVec 8)))) (frames : List Frame)

/-- Every event of a session, in order. -/
def sessionEvents : List Event := launchEvents file ++ frames.flatMap Frame.events

theorem session_eq_run : session file frames = run exec (sessionEvents file frames) new := by
  rw [sessionEvents, run_append, session]
  exact congrArg _ (funext fun w => run_flatMap (fun _ _ => rfl) frames w)

theorem gui_sessionEvents : Event.AllGui (sessionEvents file frames) :=
  .append (.map fun _ => trivial) (.flatMap Frame.gui)

/-- **A run of events** keeps the window sound. -/
theorem Sound.run {w w' : Window} {es : List Event} (h : w.Sound) (hgui : Event.AllGui es)
    (hrun : Transition.run Window.exec es w = some w') : w'.Sound := by
  induction es generalizing w with
  | nil => exact Option.some.inj hrun ▸ h
  | cons e es ih =>
    obtain ⟨he, hes⟩ := List.forall_mem_cons.1 hgui
    obtain ⟨w₁, hexec, hrest⟩ := Option.bind_eq_some_iff.1 hrun
    obtain ⟨w₂, hexec', h₂⟩ := h.exec he fun host hhost hoff hfile => by
      -- else it would not have returned
      have hnone := (h.exec_eq_none_iff he).2 ⟨host, hhost, hoff, hfile⟩
      cases hnone.symm.trans hexec
    obtain rfl := Option.some.inj (hexec.symm.trans hexec')
    exact ih h₂ hes hrest

/-- **A session panics exactly when** it switches a trace on before 1970,
or on a 29th of February of a year that 400 does not divide. Nothing else
that is pressed, clicked, typed, loaded or painted panics. Overflow is
checked here: without the checks `chrono_lite` does not panic, but names
the file after a wrapped number. -/
theorem session_eq_none_iff : session file frames = none ↔
    ∃ before host after w, sessionEvents file frames = before ++ .toggleTrace host :: after ∧
      run exec before new = some w ∧ w.tracing = false ∧
      ∀ secs, host.now = some secs → (Moment.ofSeconds secs.toNat).date.IsLeapDay ∧
        ¬ 400 ∣ (Moment.ofSeconds secs.toNat).date.year := by
  have hgui := gui_sessionEvents file frames
  rw [session_eq_run, run_eq_none_iff]
  constructor
  · rintro ⟨before, e, after, w, hes, hrun, hnone⟩
    obtain ⟨hbefore, hrest⟩ := List.forall_mem_append.1 (hes ▸ hgui)
    have hw := Sound.new.run hbefore hrun
    obtain ⟨host, rfl, hoff, hfile⟩ :=
      (hw.exec_eq_none_iff (List.forall_mem_cons.1 hrest).1).1 hnone
    exact ⟨before, host, after, w, hes, hrun, hoff, host.traceFile_eq_none_iff.1 hfile⟩
  · rintro ⟨before, host, after, w, hes, hrun, hoff, htime⟩
    have hw := Sound.new.run (List.forall_mem_append.1 (hes ▸ hgui)).1 hrun
    have he : (Event.toggleTrace host).Gui := trivial
    exact ⟨before, _, after, w, hes, hrun,
      (hw.exec_eq_none_iff he).2 ⟨host, rfl, hoff, host.traceFile_eq_none_iff.2 htime⟩⟩

/-- **Wherever a session has got to**, every cursor is on a cell and every
row on screen is one of memory; and the trace file is open just when the
window shows it to be, with every time from zero up to the present in it,
whatever was loaded, edited, reset or run since. -/
theorem session_sound {w : Window} (h : session file frames = some w) :
    w.InBounds ∧ w.perilus.vcd = if w.tracing then some (List.range w.perilus.time) else none := by
  rw [session_eq_run] at h
  have hw := Sound.new.run (gui_sessionEvents file frames) h
  exact ⟨hw.inBounds, hw.trace.vcd_eq⟩

/-- A trace switched on at the end of a day, and a cycle. -/
theorem session_sound_cycle :
    ∃ w, session none [{ keys := some { trace := some ⟨some 86399, "/tmp", .ok ()⟩ } },
      { keys := some { step := true } }] = some w ∧ w.perilus.vcd = some [0, 1] :=
  ⟨_, rfl, (session_sound none [{ keys := some { trace := some ⟨some 86399, "/tmp", .ok ()⟩ } },
    { keys := some { step := true } }] rfl).2⟩

end Window

end Perilus
