import Mathlib.Logic.Function.Iterate
import SourceDocs.Proofs.CheckedCuts
import SourceDocs.Proofs.OpeningPositions
import SourceDocs.Proofs.Recovery
import SourceDocs.Proofs.WellFormedTables

/-!
The scanning machine by byte offsets. A cursor marks where the open span begins and where the text not
read yet begins. It cuts the source at these offsets, and it looks up the entry that it is inside of by
its position, so each of its steps can fail. The cursor of a machine that scans a source never fails:
its offsets fall between characters, its position is one of the grammar, and its steps are those of the
machine.
-/

namespace SourceDocs.Scan

structure Cursor where
  inside : Inside
  start : Nat
  position : Nat
  spans : List Span
  diagnostics : List Diagnostic
deriving DecidableEq, Repr

namespace Cursor

def cut? (source : Text) (kind : SpanKind) (stop : Nat) (cursor : Cursor) : Option Cursor :=
  if cursor.start < stop then do
    let text ← Text.slice? source cursor.start stop
    return ⟨.code, stop, stop, ⟨kind, cursor.start, stop, text⟩ :: cursor.spans, cursor.diagnostics⟩
  else some ⟨.code, stop, stop, cursor.spans, cursor.diagnostics⟩

def recover? (source : Text) (construct : Construct) (cursor : Cursor) : Option Cursor := do
  let report ← Diagnostic.unterminatedAt? construct source cursor.start
  return { cursor with diagnostics := report :: cursor.diagnostics }

def pass (inside : Inside) (size : Nat) (cursor : Cursor) : Cursor :=
  { cursor with inside := inside, position := cursor.position + size }

def stepCode? (grammar : Grammar) (source rest : Text) (cursor : Cursor) : Option Cursor := do
  match ← grammar.openingAt? rest with
  | none => return cursor.pass .code (Text.charBytes rest)
  | some (inside, size) =>
    let behind ← cursor.cut? source .code cursor.position
    return behind.pass inside size

def stepLine? (grammar : Grammar) (source rest : Text) (index : Nat) (cursor : Cursor) :
    Option Cursor := do
  let marker ← grammar.lineMarkers[index]?
  let size ← Text.lineBytes? rest
  cursor.cut? source (.line index marker) (cursor.position + size)

def stepBlock? (grammar : Grammar) (source rest : Text) (index : Nat) (cursor : Cursor) :
    Option Cursor := do
  let style ← grammar.blockStyles[index]?
  match Text.offsetOf? style.stop.text rest with
  | some offset =>
    cursor.cut? source (.block index style true) (cursor.position + offset + style.stop.bytes)
  | none =>
    let raised ← cursor.recover? source .blockComment
    raised.cut? source (.block index style false) (Text.bytes source)

def stepString? (grammar : Grammar) (source rest : Text) (index : Nat) (escaped : Bool)
    (cursor : Cursor) : Option Cursor := do
  let delimiter ← grammar.strings[index]?
  if escaped then return cursor.pass (.string index false) (Text.charBytes rest)
  else match State.escapeAt? delimiter rest with
    | some escape => return cursor.pass (.string index true) escape.bytes
    | none =>
      if delimiter.closing.isAt rest then
        cursor.cut? source (.string index delimiter true)
          (cursor.position + delimiter.closing.bytes)
      else
        let broken ← delimiter.breaksAt? rest
        if broken then
          let raised ← cursor.recover? source .stringLiteral
          raised.cut? source (.string index delimiter false) cursor.position
        else return cursor.pass (.string index false) (Text.charBytes rest)

/-- One step of the machine; it is taken only in front of the end of the source. `none` if a cut or a
look-up fails. -/
def step? (grammar : Grammar) (source : Text) (cursor : Cursor) : Option Cursor := do
  let (_, rest) ← Text.splitAt? cursor.position source
  match cursor.inside with
  | .code => cursor.stepCode? grammar source rest
  | .line index => cursor.stepLine? grammar source rest index
  | .block index => cursor.stepBlock? grammar source rest index
  | .string index escaped => cursor.stepString? grammar source rest index escaped

def finish? (grammar : Grammar) (source : Text) (cursor : Cursor) : Option Cursor :=
  match cursor.inside with
  | .code => cursor.cut? source .code (Text.bytes source)
  | .line index => do
    let marker ← grammar.lineMarkers[index]?
    cursor.cut? source (.line index marker) (Text.bytes source)
  | .block index => do
    let style ← grammar.blockStyles[index]?
    let raised ← cursor.recover? source .blockComment
    raised.cut? source (.block index style false) (Text.bytes source)
  | .string index _ => do
    let delimiter ← grammar.strings[index]?
    let raised ← cursor.recover? source .stringLiteral
    raised.cut? source (.string index delimiter false) (Text.bytes source)

/-- What a cursor has to satisfy before each step: its offsets are in order, inside the source and
between characters, something that has opened has begun, and the entry is one of the grammar. -/
structure Sound (grammar : Grammar) (source : Text) (cursor : Cursor) : Prop where
  start_le : cursor.start ≤ cursor.position
  position_le : cursor.position ≤ Text.bytes source
  startBoundary : Text.IsBoundary source cursor.start
  positionBoundary : Text.IsBoundary source cursor.position
  start_lt : cursor.inside ≠ .code → cursor.start < cursor.position
  declared : cursor.inside.Declared grammar

end Cursor

def Mode.inside : Mode → Inside
  | .code => .code
  | .line index _ => .line index
  | .block index _ => .block index
  | .string index _ escaped => .string index escaped

def Mode.opener? : Mode → Option Opener
  | .code => none
  | .line index marker => some (.line index marker)
  | .block index style => some (.block index style)
  | .string index delimiter _ => some (.string index delimiter)

theorem Mode.inside_ofOpener (opener : Opener) :
    (Mode.ofOpener opener).inside = .ofOpener opener := by
  cases opener <;> rfl

namespace State

def cursor (state : State) : Cursor where
  inside := state.mode.inside
  start := state.start.offset
  position := state.start.offset + Text.bytes state.pending.reverse
  spans := state.spans
  diagnostics := state.diagnostics

def Splits (source : Text) (state : State) : Prop :=
  ∃ before, source = before ++ state.ahead ∧ state.start = Place.after before

variable {grammar : Grammar} {source : Text} {state : State}

theorem Scanned.splits (scanned : Scanned grammar source state) : state.Splits source := by
  obtain ⟨⟨lexemes, history⟩, _⟩ := scanned
  exact ⟨_, history.lexes.source_eq, history.start⟩

theorem Splits.take (splits : state.Splits source) (count : Nat) :
    (state.take count).Splits source := by
  unfold Splits
  rw [ahead_take]
  exact splits

theorem position_take (count : Nat) (state : State) :
    (state.take count).cursor.position =
      state.cursor.position + Text.bytes (state.rest.take count) := by
  simp only [cursor, pending_take, Text.bytes_append, Nat.add_assoc]
  rfl

/-- Passing as many bytes as some characters have is passing the characters. -/
theorem pass_cursor (mode : Mode) (count : Nat) (state : State) :
    state.cursor.pass mode.inside (Text.bytes (state.rest.take count)) =
      { state.take count with mode := mode }.cursor := by
  rw [Cursor.pass, ← position_take]
  rfl

theorem Splits.cut_off (splits : state.Splits source) :
    ∃ read, Text.splitAt? state.cursor.position source = some (read, state.rest) := by
  obtain ⟨before, split, start⟩ := splits
  have position : state.cursor.position = Text.bytes (before ++ state.pending.reverse) := by
    rw [Text.bytes_append, cursor, start, Place.offset_after]
  refine ⟨before ++ state.pending.reverse, ?_⟩
  rw [position, split, ahead, ← List.append_assoc, Text.splitAt?_append]

theorem Splits.cut? (splits : state.Splits source) (kind : SpanKind) :
    state.cursor.cut? source kind state.cursor.position = some (state.cut kind).cursor := by
  obtain ⟨before, split, start⟩ := splits
  have offset : state.start.offset = Text.bytes before := by rw [start, Place.offset_after]
  unfold Cursor.cut? State.cut
  cases pending : state.pending with
  | nil => simp [cursor, pending, Mode.inside]
  | cons c others =>
    have grows : 0 < Text.bytes state.pending.reverse := Text.bytes_pos (by simp [pending])
    have text : Text.slice? source state.start.offset
        (state.start.offset + Text.bytes state.pending.reverse) = some state.pending.reverse := by
      rw [split, offset, ahead, ← List.append_assoc, Text.slice?_append]
    rw [if_pos (by simp only [cursor]; omega)]
    simp only [cursor, text, ← pending, Mode.inside, Place.offset_advance]
    rfl

/-- A cut further on is the cut of the machine that has read up to there. -/
theorem Splits.cut?_take (splits : state.Splits source) (kind : SpanKind) (count : Nat) :
    state.cursor.cut? source kind (state.cursor.position + Text.bytes (state.rest.take count)) =
      some ((state.take count).cut kind).cursor := by
  rw [← position_take]
  exact (splits.take count).cut? kind

theorem Splits.recover? (splits : state.Splits source) (construct : Construct) :
    state.cursor.recover? source construct = some (state.recover construct).cursor := by
  obtain ⟨before, split, start⟩ := splits
  unfold Cursor.recover?
  have report : Diagnostic.unterminatedAt? construct source state.cursor.start =
      some ⟨construct, state.start⟩ := by
    rw [split, cursor, start, Place.offset_after, Diagnostic.unterminatedAt?_append]
  rw [report]
  rfl

theorem Splits.position_end (splits : state.Splits source) :
    state.cursor.position + Text.bytes state.rest = Text.bytes source := by
  obtain ⟨before, split, start⟩ := splits
  rw [split, ahead, Text.bytes_append, Text.bytes_append, cursor, start, Place.offset_after,
    Nat.add_assoc]

/-- What is open was opened by an entry of the grammar, and its marker has been read. -/
theorem Scanned.opened {opener : Opener} (scanned : Scanned grammar source state)
    (opens : state.mode.opener? = some opener) :
    grammar.Declares opener ∧ state.pending ≠ [] := by
  have inside := scanned.inside
  unfold Open at inside
  cases mode : state.mode with
  | code => simp [mode, Mode.opener?] at opens
  | line index marker =>
    rw [mode] at inside opens
    obtain rfl := Option.some.inj opens
    have read : state.pending.reverse = marker.marker.text ++ [] := by
      rw [inside.2, List.append_nil]
    exact ⟨(Grammar.openerAt_spec inside.1).1, pending_ne_nil read⟩
  | block index style =>
    rw [mode] at inside opens
    obtain rfl := Option.some.inj opens
    have read : state.pending.reverse = style.start.text ++ [] := by
      rw [inside.2, List.append_nil]
    exact ⟨(Grammar.openerAt_spec inside.1).1, pending_ne_nil read⟩
  | string index delimiter escaped =>
    rw [mode] at inside opens
    obtain rfl := Option.some.inj opens
    obtain ⟨here, body, read, _⟩ := inside
    exact ⟨(Grammar.openerAt_spec here).1, pending_ne_nil read⟩

theorem Scanned.line_entry {index : Nat} {marker : LineMarker}
    (scanned : Scanned grammar source state) (inLine : state.mode = .line index marker) :
    grammar.lineMarkers[index]? = some marker := by
  have declares : grammar.Declares (.line index marker) :=
    (scanned.opened (by rw [inLine]; rfl)).1
  exact declares

theorem Scanned.block_entry {index : Nat} {style : BlockStyle}
    (scanned : Scanned grammar source state) (inBlock : state.mode = .block index style) :
    grammar.blockStyles[index]? = some style := by
  have declares : grammar.Declares (.block index style) :=
    (scanned.opened (by rw [inBlock]; rfl)).1
  exact declares

theorem Scanned.string_entry {index : Nat} {delimiter : StringDelimiter} {escaped : Bool}
    (scanned : Scanned grammar source state)
    (inString : state.mode = .string index delimiter escaped) :
    grammar.strings[index]? = some delimiter := by
  have declares : grammar.Declares (.string index delimiter) :=
    (scanned.opened (by rw [inString]; rfl)).1
  exact declares

theorem Scanned.stepCode? (scanned : Scanned grammar source state) (inCode : state.mode = .code)
    (more : state.rest ≠ []) :
    state.cursor.stepCode? grammar source state.rest = some (state.stepCode grammar).cursor := by
  unfold Cursor.stepCode? State.stepCode
  rw [Grammar.openingAt?_eq]
  cases opens : grammar.openerAt state.rest with
  | none =>
    have stays : state.take 1 = { state.take 1 with mode := .code } := by
      rw [← inCode]
      rfl
    dsimp only [Option.map_none]
    rw [stays, ← pass_cursor, ← Text.charBytes_eq more]
    rfl
  | some opener =>
    have size : opener.marker.bytes =
        Text.bytes ((state.cut .code).rest.take opener.marker.text.length) := by
      rw [rest_cut, Marker.bytes_take (Grammar.openerAt_spec opens).2]
    dsimp only [Option.map_some, Grammar.sizedOpener]
    rw [← pass_cursor, ← size, Mode.inside_ofOpener]
    simp only [bind, Option.bind, scanned.splits.cut?]
    rfl

theorem Scanned.stepLine? {index : Nat} {marker : LineMarker}
    (scanned : Scanned grammar source state) (inLine : state.mode = .line index marker) :
    state.cursor.stepLine? grammar source state.rest index =
      some (state.stepLine index marker).cursor := by
  unfold Cursor.stepLine? State.stepLine
  rw [scanned.line_entry inLine, Text.lineBytes?_eq]
  exact scanned.splits.cut?_take _ _

theorem Scanned.stepBlock? {index : Nat} {style : BlockStyle}
    (scanned : Scanned grammar source state) (inBlock : state.mode = .block index style) :
    state.cursor.stepBlock? grammar source state.rest index =
      some (state.stepBlock index style).cursor := by
  have splits := scanned.splits
  unfold Cursor.stepBlock? State.stepBlock
  rw [scanned.block_entry inBlock]
  dsimp only [bind, Option.bind]
  cases found : Text.lengthThrough? style.stop.text state.rest with
  | some count =>
    obtain ⟨body, after, split, rfl, clear⟩ := Text.exists_of_lengthThrough? found
    have offset : Text.offsetOf? style.stop.text state.rest = some (Text.bytes body) := by
      rw [split, List.append_assoc, Text.offsetOf?_of_clear clear]
    have size : Text.bytes (state.rest.take (body ++ style.stop.text).length) =
        Text.bytes body + style.stop.bytes := by
      rw [split, List.take_left, Text.bytes_append, Marker.bytes]
    rw [offset]
    dsimp only
    rw [Nat.add_assoc, ← size]
    exact splits.cut?_take _ _
  | none =>
    have offset : Text.offsetOf? style.stop.text state.rest = none :=
      Text.offsetOf?_eq_none style.stop.text_ne_nil (Text.clear_of_lengthThrough?_eq_none found)
    have stop : state.cursor.position + Text.bytes (state.rest.take state.rest.length) =
        Text.bytes source := by
      rw [List.take_length, splits.position_end]
    have raised : (state.recover .blockComment).Splits source := splits
    rw [offset]
    dsimp only
    rw [splits.recover?, ← stop]
    exact raised.cut?_take _ _

theorem Scanned.stepString? {index : Nat} {delimiter : StringDelimiter} {escaped : Bool}
    (scanned : Scanned grammar source state)
    (inString : state.mode = .string index delimiter escaped) (more : state.rest ≠ []) :
    state.cursor.stepString? grammar source state.rest index escaped =
      some (state.stepString index delimiter escaped).cursor := by
  have splits := scanned.splits
  have passed : state.cursor.pass (.string index false) (Text.charBytes state.rest) =
      { state.take 1 with mode := .string index delimiter false }.cursor := by
    rw [Text.charBytes_eq more]
    exact pass_cursor (.string index delimiter false) 1 state
  unfold Cursor.stepString? State.stepString
  rw [scanned.string_entry inString]
  dsimp only [bind, Option.bind]
  cases escaped with
  | true =>
    rw [if_pos rfl, if_pos rfl, passed]
    rfl
  | false =>
    rw [if_neg Bool.false_ne_true, if_neg Bool.false_ne_true]
    cases escapes : escapeAt? delimiter state.rest with
    | some escape =>
      dsimp only
      have stands := (escapeAt?_eq_some_iff.mp escapes).2
      rw [← Marker.bytes_take stands]
      exact congrArg some (pass_cursor (.string index delimiter true) _ state)
    | none =>
      dsimp only
      split
      next closes =>
        rw [← Marker.bytes_take (Marker.isAt_iff.mp closes)]
        exact splits.cut?_take _ _
      next unclosed =>
        rw [delimiter.breaksAt?_eq more]
        dsimp only
        split
        next =>
          have raised : (state.recover .stringLiteral).Splits source := splits
          rw [splits.recover?]
          exact raised.cut? _
        next =>
          have stays : state.take 1 =
              { state.take 1 with mode := .string index delimiter false } := by
            rw [← inString]
            rfl
          rw [stays, passed]
          rfl

theorem Scanned.step? (scanned : Scanned grammar source state) (more : state.rest ≠ []) :
    state.cursor.step? grammar source = some (state.step grammar).cursor := by
  obtain ⟨read, cut⟩ := scanned.splits.cut_off
  have inside : state.cursor.inside = state.mode.inside := rfl
  unfold Cursor.step? State.step
  rw [cut, inside]
  dsimp only [bind, Option.bind]
  cases mode : state.mode with
  | code => exact scanned.stepCode? mode more
  | line index marker => exact scanned.stepLine? mode
  | block index style => exact scanned.stepBlock? mode
  | string index delimiter escaped => exact scanned.stepString? mode more

theorem Scanned.finish? (scanned : Scanned grammar source state) (done : state.rest = []) :
    state.cursor.finish? grammar source = some state.finish.cursor := by
  have splits := scanned.splits
  have stop : Text.bytes source = state.cursor.position := by
    rw [← splits.position_end, done]
    rfl
  have inside : state.cursor.inside = state.mode.inside := rfl
  unfold Cursor.finish? State.finish
  rw [inside, stop]
  cases mode : state.mode with
  | code => exact splits.cut? .code
  | line index marker =>
    dsimp only [Mode.inside, bind, Option.bind]
    rw [scanned.line_entry mode]
    exact splits.cut? _
  | block index style =>
    have raised : (state.recover .blockComment).Splits source := splits
    dsimp only [Mode.inside, bind, Option.bind]
    rw [scanned.block_entry mode, splits.recover?]
    exact raised.cut? _
  | string index delimiter escaped =>
    have raised : (state.recover .stringLiteral).Splits source := splits
    dsimp only [Mode.inside, bind, Option.bind]
    rw [scanned.string_entry mode, splits.recover?]
    exact raised.cut? _

theorem Scanned.sound (scanned : Scanned grammar source state) :
    state.cursor.Sound grammar source := by
  obtain ⟨before, split, start⟩ := scanned.splits
  have offset : state.cursor.start = Text.bytes before := by rw [cursor, start, Place.offset_after]
  have boundary : Text.IsBoundary source state.cursor.position := by
    rw [split, ahead, ← List.append_assoc, cursor, start, Place.offset_after]
    exact Text.isBoundary_of_append _ _ _
  refine ⟨Nat.le_add_right _ _, boundary.le_bytes, ⟨before, _, split, offset.symm⟩, boundary, ?_, ?_⟩
  · intro outside
    have read : state.pending ≠ [] := by
      cases mode : state.mode with
      | code => exact absurd (congrArg Mode.inside mode) outside
      | _ => exact (scanned.opened (by rw [mode]; rfl)).2
    exact Nat.lt_add_of_pos_right (Text.bytes_pos (by simpa using read))
  · change state.mode.inside.Declared grammar
    cases mode : state.mode with
    | code => trivial
    | line => exact (List.getElem?_eq_some_iff.mp (scanned.line_entry mode)).1
    | block => exact (List.getElem?_eq_some_iff.mp (scanned.block_entry mode)).1
    | string => exact (List.getElem?_eq_some_iff.mp (scanned.string_entry mode)).1

/-- A run is a number of steps in front of the end of the text, at most as many as the weight. -/
theorem run_eq_iterate (grammar : Grammar) (state : State) :
    ∃ count ≤ state.weight, state.run grammar = (State.step grammar)^[count] state ∧
      ∀ n < count, ((State.step grammar)^[n] state).rest ≠ [] := by
  fun_induction State.run grammar state with
  | case1 state done => exact ⟨0, Nat.zero_le _, rfl, fun n below => absurd below (Nat.not_lt_zero n)⟩
  | case2 state more ih =>
    obtain ⟨count, bound, same, unread⟩ := ih
    have falls := weight_step_lt grammar state more
    refine ⟨count + 1, by omega, same, ?_⟩
    intro n below
    cases n with
    | zero => exact more
    | succ n => exact unread n (by omega)

theorem Scanned.iterate {count : Nat} (scanned : Scanned grammar source state)
    (unread : ∀ n < count, ((State.step grammar)^[n] state).rest ≠ []) :
    Scanned grammar source ((State.step grammar)^[count] state) := by
  induction count with
  | zero => exact scanned
  | succ count ih =>
    rw [Function.iterate_succ_apply']
    exact (ih fun n below => unread n (by omega)).step (unread count (by omega))

def passed (grammar : Grammar) (source : Text) (count : Nat) : State :=
  (State.step grammar)^[count] (initial source)

end State

def Cursor.result (cursor : Cursor) : Scan := ⟨cursor.spans.reverse, cursor.diagnostics.reverse⟩

/-- A scan takes at most two steps for each byte of the source. Before each of them, and at the end, the
cursor of the machine is sound; its steps and the closing of what is left open do not fail, and they
give the scan. -/
theorem ofSource_in_bounds (grammar : Grammar) (source : Text) :
    ∃ count ≤ 2 * Text.bytes source,
      (∀ n ≤ count, (State.passed grammar source n).cursor.Sound grammar source) ∧
      (∀ n < count, (State.passed grammar source n).cursor.position < Text.bytes source ∧
        (State.passed grammar source n).cursor.step? grammar source =
          some (State.passed grammar source (n + 1)).cursor) ∧
      (State.passed grammar source count).cursor.position = Text.bytes source ∧
      ∃ done, (State.passed grammar source count).cursor.finish? grammar source = some done ∧
        done.result = ofSource grammar source := by
  obtain ⟨count, bound, run, unread⟩ := State.run_eq_iterate grammar (State.initial source)
  have scanned : ∀ n ≤ count, State.Scanned grammar source (State.passed grammar source n) :=
    fun n within => (State.initial_scanned grammar source).iterate fun m below => unread m (by omega)
  have done : (State.passed grammar source count).rest = [] := by
    rw [State.passed, ← run, State.rest_run]
  have size : count ≤ 2 * Text.bytes source := by
    have characters := Text.length_le_bytes source
    rw [State.weight_of_code rfl] at bound
    exact Nat.le_trans bound (Nat.mul_le_mul_left 2 characters)
  refine ⟨count, size, fun n within => (scanned n within).sound, ?_, ?_, ?_⟩
  · intro n below
    have here := scanned n (by omega)
    have ending := here.splits.position_end
    have positive := Text.bytes_pos (unread n below)
    refine ⟨?_, ?_⟩
    · change _ + Text.bytes ((State.step grammar)^[n] (State.initial source)).rest = _ at ending
      omega
    · rw [here.step? (unread n below), State.passed, State.passed, Function.iterate_succ_apply']
  · have ending := (scanned count (Nat.le_refl _)).splits.position_end
    rwa [done] at ending
  · refine ⟨_, (scanned count (Nat.le_refl _)).finish? done, ?_⟩
    rw [State.passed, ← run]
    rfl

-- a cursor inside a character fails, and so does one inside of an entry that the grammar lacks
example :
    (⟨.code, 0, 1, [], []⟩ : Cursor).step? .sundry ['é'] = none ∧
      (⟨.block 2, 0, 1, [], []⟩ : Cursor).step? .sundry ['a', 'b'] = none := by
  decide

end SourceDocs.Scan
