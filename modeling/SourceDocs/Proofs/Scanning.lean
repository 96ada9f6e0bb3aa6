import SourceDocs.Proofs.Lexing
import SourceDocs.Proofs.Openers
import SourceDocs.Scan.Basic

/-!
The scanning machine computes the lexing of its source. Between two steps the spans cut so far are a
lexing of the text in front of the open span, and the mode says what the open span is; a step keeps
this, so a run does, and at the end of the text nothing is left open.
-/

namespace SourceDocs.Scan

namespace State

def ahead (state : State) : Text := state.pending.reverse ++ state.rest

def close (kind : SpanKind) (state : State) : State :=
  match kind.leftOpen? with
  | none => state.cut kind
  | some construct => (state.recover construct).cut kind

theorem pending_take (count : Nat) (state : State) :
    (state.take count).pending.reverse = state.pending.reverse ++ state.rest.take count := by
  rw [take, List.reverse_append, List.reverse_reverse]

@[simp] theorem ahead_take (count : Nat) (state : State) :
    (state.take count).ahead = state.ahead := by
  rw [ahead, pending_take, rest_take, List.append_assoc, List.take_append_drop, ahead]

theorem close_eq {kind : SpanKind} {state : State} (nonempty : state.pending ≠ []) :
    state.close kind =
      { mode := .code
        start := state.start.advance state.pending.reverse
        pending := []
        rest := state.rest
        spans := ⟨kind, state.start.offset, (state.start.advance state.pending.reverse).offset,
          state.pending.reverse⟩ :: state.spans
        diagnostics := (kind.leftOpen?.map (⟨·, state.start⟩)).toList ++ state.diagnostics } := by
  obtain ⟨c, others, pending⟩ := List.exists_cons_of_ne_nil nonempty
  unfold close
  cases kind.leftOpen? with
  | none => simp [cut, pending]
  | some construct => simp [cut, recover, pending]

/-- The spans cut so far are a lexing, by the given lexemes, of the text in front of the open span. -/
structure History (grammar : Grammar) (source : Text) (lexemes : List Lexeme) (state : State) :
    Prop where
  lexes : Lexes grammar source lexemes state.ahead
  start : state.start = Place.start.advance (Lexeme.texts lexemes)
  spans : state.spans.reverse = Lexeme.place .start lexemes
  diagnostics : state.diagnostics.reverse = Lexeme.raised .start lexemes

def Open (grammar : Grammar) (state : State) : Prop :=
  match state.mode with
  | .code => Text.Clear (grammar.openerAt · ≠ none) state.pending.reverse state.rest
  | .line index marker =>
    grammar.openerAt state.ahead = some (.line index marker) ∧
      state.pending.reverse = marker.marker.text
  | .block index style =>
    grammar.openerAt state.ahead = some (.block index style) ∧
      state.pending.reverse = style.start.text
  | .string index delimiter escaped =>
    grammar.openerAt state.ahead = some (.string index delimiter) ∧
      ∃ body, state.pending.reverse = delimiter.opening.text ++ body ∧
        Literal.Resumes delimiter body state.rest escaped

structure Scanned (grammar : Grammar) (source : Text) (state : State) : Prop where
  history : ∃ lexemes, History grammar source lexemes state
  inside : Open grammar state

variable {grammar : Grammar} {source : Text} {lexemes : List Lexeme} {state : State}

theorem open_of_code (inCode : state.mode = .code)
    (clear : Text.Clear (grammar.openerAt · ≠ none) state.pending.reverse state.rest) :
    Open grammar state := by
  unfold Open
  rw [inCode]
  exact clear

theorem History.take (history : History grammar source lexemes state) (count : Nat) :
    History grammar source lexemes (state.take count) where
  lexes := by
    rw [ahead_take]
    exact history.lexes
  start := history.start
  spans := history.spans
  diagnostics := history.diagnostics

theorem History.enter (history : History grammar source lexemes state) (mode : Mode) :
    History grammar source lexemes { state with mode := mode } :=
  ⟨history.lexes, history.start, history.spans, history.diagnostics⟩

theorem History.close {kind : SpanKind} (history : History grammar source lexemes state)
    (nonempty : state.pending ≠ []) (reads : Reads grammar state.pending.reverse state.rest kind)
    (ends : kind = .code → state.rest = [] ∨ grammar.openerAt state.rest ≠ none) :
    History grammar source (lexemes ++ [⟨kind, state.pending.reverse⟩]) (state.close kind) := by
  rw [close_eq nonempty]
  have spanNonempty : state.pending.reverse ≠ [] := by simpa using nonempty
  constructor
  · exact history.lexes.append ⟨state.rest, rfl, spanNonempty, reads, ends, rfl⟩
  · rw [Lexeme.texts_append, Place.advance_append, ← history.start]
    simp
  · rw [Lexeme.place_append, ← history.start, ← history.spans, List.reverse_cons]
    rfl
  · rw [Lexeme.raised_append, ← history.start, ← history.diagnostics, List.reverse_append]
    cases opened : kind.leftOpen? with
    | none => simp [Lexeme.raised, opened]
    | some construct => simp [Lexeme.raised, opened]

theorem History.closed {kind : SpanKind} (history : History grammar source lexemes state)
    (nonempty : state.pending ≠ []) (reads : Reads grammar state.pending.reverse state.rest kind)
    (outside : kind ≠ .code) :
    ∃ further, History grammar source further (state.close kind) ∧
      (state.close kind).pending = [] :=
  ⟨_, history.close nonempty reads fun inCode => absurd inCode outside, by rw [close_eq nonempty]⟩

theorem Scanned.close {kind : SpanKind} (history : History grammar source lexemes state)
    (nonempty : state.pending ≠ []) (reads : Reads grammar state.pending.reverse state.rest kind)
    (outside : kind ≠ .code) : Scanned grammar source (state.close kind) := by
  obtain ⟨further, closed, _⟩ := history.closed nonempty reads outside
  refine ⟨⟨further, closed⟩, ?_⟩
  rw [close_eq nonempty]
  exact open_of_code rfl Text.clear_nil

theorem pending_ne_nil {marker : Marker} {body : Text}
    (pending : state.pending.reverse = marker.text ++ body) : state.pending ≠ [] := by
  intro empty
  rw [empty, List.reverse_nil] at pending
  exact marker.text_ne_nil (List.append_eq_nil_iff.mp pending.symm).1

/-- Clear text in front of an opener, or of the end of the text, is cut as code. -/
theorem History.cut_code (history : History grammar source lexemes state)
    (clear : Text.Clear (grammar.openerAt · ≠ none) state.pending.reverse state.rest)
    (ends : state.rest = [] ∨ grammar.openerAt state.rest ≠ none) :
    ∃ further, History grammar source further (state.cut .code) ∧ (state.cut .code).pending = [] := by
  by_cases empty : state.pending = []
  · have unchanged : state.cut .code = { state with mode := .code } := by simp [cut, empty]
    rw [unchanged]
    exact ⟨lexemes, history.enter .code, empty⟩
  · have closes : state.cut .code = state.close .code := rfl
    rw [closes]
    exact ⟨_, history.close empty clear fun _ => ends, by rw [close_eq empty]⟩

theorem Scanned.enter {opener : Opener} (history : History grammar source lexemes state)
    (empty : state.pending = []) (opens : grammar.openerAt state.rest = some opener) :
    Scanned grammar source
      { state.take opener.marker.text.length with mode := .ofOpener opener } := by
  refine ⟨⟨lexemes, (history.take _).enter _⟩, ?_⟩
  obtain ⟨tail, stands⟩ := (Grammar.openerAt_spec opens).2
  have pending : (state.take opener.marker.text.length).pending.reverse = opener.marker.text := by
    rw [pending_take, empty, ← stands, List.take_left]
    rfl
  have here : grammar.openerAt (state.take opener.marker.text.length).ahead = some opener := by
    rw [ahead_take, ahead, empty]
    exact opens
  cases opener with
  | line index marker => exact ⟨here, pending⟩
  | block index style => exact ⟨here, pending⟩
  | string index delimiter =>
    exact ⟨here, [], by rw [List.append_nil]; exact pending, .start _⟩

theorem Scanned.stepCode (scanned : Scanned grammar source state) (inCode : state.mode = .code)
    (more : state.rest ≠ []) : Scanned grammar source (state.stepCode grammar) := by
  obtain ⟨⟨lexemes, history⟩, inside⟩ := scanned
  have clear : Text.Clear (grammar.openerAt · ≠ none) state.pending.reverse state.rest := by
    simpa only [Open, inCode] using inside
  unfold State.stepCode
  split
  next quiet =>
    refine ⟨⟨lexemes, history.take 1⟩, open_of_code inCode ?_⟩
    rw [pending_take, rest_take, Text.clear_append_iff, List.take_append_drop]
    refine ⟨clear, ?_⟩
    obtain ⟨c, rest, split⟩ := List.exists_cons_of_ne_nil more
    rw [split] at quiet ⊢
    exact Text.clear_cons_iff.mpr ⟨not_not_intro quiet, Text.clear_nil⟩
  next opener opens =>
    obtain ⟨further, cut, empty⟩ := history.cut_code clear (.inr (by rw [opens]; simp))
    exact Scanned.enter cut empty (by rw [rest_cut]; exact opens)

theorem Scanned.stepLine {index : Nat} {marker : LineMarker} (scanned : Scanned grammar source state)
    (inLine : state.mode = .line index marker) :
    Scanned grammar source (state.stepLine index marker) := by
  obtain ⟨⟨lexemes, history⟩, inside⟩ := scanned
  simp only [Open, inLine] at inside
  obtain ⟨opens, pending⟩ := inside
  have taken : (state.take (Text.lineLength state.rest)).pending.reverse =
      marker.marker.text ++ state.rest.take (Text.lineLength state.rest) := by
    rw [pending_take, pending]
  change Scanned grammar source ((state.take _).close (.line index marker))
  refine Scanned.close (history.take _) (pending_ne_nil taken) ?_ (by simp)
  refine ⟨?_, _, taken, Text.clear_lineLength state.rest⟩
  rw [← ahead, ahead_take]
  exact opens

theorem Scanned.stepBlock {index : Nat} {style : BlockStyle}
    (scanned : Scanned grammar source state) (inBlock : state.mode = .block index style) :
    Scanned grammar source (state.stepBlock index style) := by
  obtain ⟨⟨lexemes, history⟩, inside⟩ := scanned
  simp only [Open, inBlock] at inside
  obtain ⟨opens, pending⟩ := inside
  unfold State.stepBlock
  split
  next count found =>
    obtain ⟨body, after, split, rfl, clear⟩ := Text.exists_of_lengthThrough? found
    have taken : (state.take (body ++ style.stop.text).length).pending.reverse =
        style.start.text ++ (body ++ style.stop.text) := by
      rw [pending_take, pending, split, List.take_left]
    change Scanned grammar source ((state.take _).close (.block index style true))
    refine Scanned.close (history.take _) (pending_ne_nil taken) ?_ (by simp)
    refine ⟨?_, body, by rw [taken, List.append_assoc], ?_⟩
    · rw [← ahead, ahead_take]
      exact opens
    · rw [rest_take, split, List.drop_left]
      exact clear
  next missing =>
    have taken : (state.take state.rest.length).pending.reverse =
        style.start.text ++ state.rest := by
      rw [pending_take, pending, List.take_length]
    change Scanned grammar source ((state.take _).close (.block index style false))
    refine Scanned.close (history.take _) (pending_ne_nil taken) ?_ (by simp)
    refine ⟨?_, state.rest, taken, ?_, Text.clear_of_lengthThrough?_eq_none missing⟩
    · rw [← ahead, ahead_take]
      exact opens
    · rw [rest_take, List.drop_length]

theorem escapeAt?_eq_some_iff {delimiter : StringDelimiter} {rest : Text} {escape : Marker} :
    escapeAt? delimiter rest = some escape ↔
      delimiter.escape = some escape ∧ escape.text <+: rest := by
  rw [escapeAt?, Option.filter_eq_some_iff, Marker.isAt_iff]

theorem unescaped_of_escapeAt? {delimiter : StringDelimiter} {rest : Text}
    (absent : escapeAt? delimiter rest = none) : delimiter.Unescaped rest := by
  intro escape declared stands
  have found := escapeAt?_eq_some_iff.mpr ⟨declared, stands⟩
  rw [absent] at found
  cases found

/-- The machine stays in a literal when it passes text behind which the literal can go on. -/
theorem Scanned.resume {index : Nat} {delimiter : StringDelimiter} {body passed further : Text}
    {escaped : Bool} (history : History grammar source lexemes state)
    (opens : grammar.openerAt state.ahead = some (.string index delimiter))
    (pending : state.pending.reverse = delimiter.opening.text ++ body)
    (split : state.rest = passed ++ further)
    (resumes : Literal.Resumes delimiter (body ++ passed) further escaped) :
    Scanned grammar source
      { state.take passed.length with mode := .string index delimiter escaped } := by
  have passes : state.rest.take passed.length = passed := by rw [split, List.take_left]
  have leaves : state.rest.drop passed.length = further := by rw [split, List.drop_left]
  refine ⟨⟨lexemes, (history.take _).enter _⟩, ?_, body ++ passed, ?_, ?_⟩
  · exact (congrArg grammar.openerAt (ahead_take _ state)).trans opens
  · exact (pending_take _ state).trans (by rw [passes, pending, List.append_assoc])
  · change Literal.Resumes delimiter (body ++ passed) (state.rest.drop passed.length) escaped
    rw [leaves]
    exact resumes

/-- The machine closes a literal when it passes text with which the literal ends. -/
theorem Scanned.closeString {index : Nat} {delimiter : StringDelimiter} {body passed further : Text}
    {terminated : Bool} (history : History grammar source lexemes state)
    (opens : grammar.openerAt state.ahead = some (.string index delimiter))
    (pending : state.pending.reverse = delimiter.opening.text ++ body)
    (split : state.rest = passed ++ further)
    (literal : Literal delimiter (body ++ passed) further terminated) :
    Scanned grammar source
      ((state.take passed.length).close (.string index delimiter terminated)) := by
  have taken : (state.take passed.length).pending.reverse =
      delimiter.opening.text ++ (body ++ passed) := by
    rw [pending_take, pending, split, List.take_left, List.append_assoc]
  refine Scanned.close (history.take _) (pending_ne_nil taken) ⟨?_, _, taken, ?_⟩ (by simp)
  · rw [← ahead, ahead_take]
    exact opens
  · rw [rest_take, split, List.drop_left]
    exact literal

theorem Scanned.stepString {index : Nat} {delimiter : StringDelimiter} {escaped : Bool}
    (scanned : Scanned grammar source state)
    (inString : state.mode = .string index delimiter escaped) (more : state.rest ≠ []) :
    Scanned grammar source (state.stepString index delimiter escaped) := by
  obtain ⟨⟨lexemes, history⟩, inside⟩ := scanned
  simp only [Open, inString] at inside
  obtain ⟨opens, body, pending, resumes⟩ := inside
  obtain ⟨c, further, split⟩ := List.exists_cons_of_ne_nil more
  cases escaped with
  | true =>
    rw [split] at resumes
    exact Scanned.resume history opens pending split resumes.pass_escaped
  | false =>
    unfold State.stepString
    rw [if_neg Bool.false_ne_true]
    split
    next escape found =>
      obtain ⟨declared, beyond, stands⟩ := escapeAt?_eq_some_iff.mp found
      rw [← stands] at resumes
      exact Scanned.resume history opens pending stands.symm (resumes.pass_escape declared)
    next absent =>
      have unescaped := unescaped_of_escapeAt? absent
      split
      next closes =>
        obtain ⟨after, stands⟩ := Marker.isAt_iff.mp closes
        rw [← stands] at unescaped
        exact Scanned.closeString history opens pending stands.symm
          (resumes _ after true stands.symm (.closed unescaped))
      next unclosed =>
        rw [Marker.isAt_iff] at unclosed
        split
        -- the line break itself stays outside: nothing is passed
        next broken =>
          rw [Bool.and_eq_true, Bool.not_eq_true'] at broken
          exact Scanned.closeString history opens pending (List.nil_append _).symm
            (resumes [] state.rest false rfl (.lineEnd unescaped unclosed broken.1 broken.2))
        next unbroken =>
          have ordinary : delimiter.multiline = true ∨ Text.atLineBreak state.rest = false := by
            simpa [Decidable.imp_iff_not_or] using unbroken
          rw [split] at unescaped unclosed ordinary resumes
          have stays : state.take 1 =
              { state.take 1 with mode := .string index delimiter false } := by
            rw [← inString]
            rfl
          rw [stays]
          exact Scanned.resume history opens pending split
            (resumes.pass_character unescaped unclosed ordinary)

theorem Scanned.step (scanned : Scanned grammar source state) (more : state.rest ≠ []) :
    Scanned grammar source (state.step grammar) := by
  unfold State.step
  split
  next inCode => exact scanned.stepCode inCode more
  next inLine => exact scanned.stepLine inLine
  next inBlock => exact scanned.stepBlock inBlock
  next inString => exact scanned.stepString inString more

theorem Scanned.run (scanned : Scanned grammar source state) :
    Scanned grammar source (state.run grammar) := by
  fun_induction State.run grammar state with
  | case1 state done => exact scanned
  | case2 state more ih => exact ih (scanned.step more)

theorem rest_run (grammar : Grammar) (state : State) : (state.run grammar).rest = [] := by
  fun_induction State.run grammar state with
  | case1 state done => exact done
  | case2 state more ih => exact ih

theorem initial_scanned (grammar : Grammar) (source : Text) :
    Scanned grammar source (initial source) :=
  ⟨⟨[], rfl, rfl, rfl, rfl⟩, open_of_code rfl Text.clear_nil⟩

@[simp] theorem rest_finish (state : State) : state.finish.rest = state.rest := by
  unfold State.finish
  split <;> simp

/-- What is still open at the end of the text is the last lexeme. -/
theorem Scanned.finish (scanned : Scanned grammar source state) (done : state.rest = []) :
    ∃ further, History grammar source further state.finish ∧ state.finish.pending = [] := by
  obtain ⟨⟨lexemes, history⟩, inside⟩ := scanned
  -- a comment or literal that is open here ends with the text, so its body is what was read so far
  cases mode : state.mode with
  | code =>
    simp only [State.finish, Open, mode] at inside ⊢
    exact history.cut_code inside (.inl done)
  | line index marker =>
    simp only [State.finish, Open, mode] at inside ⊢
    have whole : state.pending.reverse = marker.marker.text ++ [] := by
      rw [inside.2, List.append_nil]
    have reads : Reads grammar state.pending.reverse state.rest (.line index marker) :=
      ⟨inside.1, [], whole, Text.clear_nil, .inl done⟩
    exact history.closed (pending_ne_nil whole) reads (by simp)
  | block index style =>
    simp only [State.finish, Open, mode] at inside ⊢
    have whole : state.pending.reverse = style.start.text ++ [] := by
      rw [inside.2, List.append_nil]
    have reads : Reads grammar state.pending.reverse state.rest (.block index style false) :=
      ⟨inside.1, [], whole, done, Text.clear_nil⟩
    exact history.closed (pending_ne_nil whole) reads (by simp)
  | string index delimiter escaped =>
    simp only [State.finish, Open, mode] at inside ⊢
    obtain ⟨opens, body, pending, resumes⟩ := inside
    rw [done] at resumes
    have literal : Literal delimiter body state.rest false := by
      rw [done]
      exact resumes.at_end
    have reads : Reads grammar state.pending.reverse state.rest (.string index delimiter false) :=
      ⟨opens, body, pending, literal⟩
    exact history.closed (pending_ne_nil pending) reads (by simp)

end State

theorem exists_lexes (grammar : Grammar) (source : Text) :
    ∃ lexemes, Lexes grammar source lexemes [] ∧
      ofSource grammar source = ⟨Lexeme.place .start lexemes, Lexeme.raised .start lexemes⟩ := by
  have scanned := (State.initial_scanned grammar source).run
  have done := State.rest_run grammar (State.initial source)
  obtain ⟨lexemes, history, closed⟩ := scanned.finish done
  refine ⟨lexemes, ?_, ?_⟩
  · have lexes := history.lexes
    rwa [State.ahead, closed, State.rest_finish, done] at lexes
  · rw [← history.spans, ← history.diagnostics]
    rfl

theorem ofSource_of_lexes {grammar : Grammar} {source : Text} {lexemes : List Lexeme}
    (lexes : Lexes grammar source lexemes []) :
    ofSource grammar source = ⟨Lexeme.place .start lexemes, Lexeme.raised .start lexemes⟩ := by
  obtain ⟨others, lexes', result⟩ := exists_lexes grammar source
  rw [lexes.unique lexes', result]

theorem lexing_spans (grammar : Grammar) (source : Text) :
    Lexing grammar source (ofSource grammar source).spans := by
  obtain ⟨lexemes, lexes, result⟩ := exists_lexes grammar source
  rw [result]
  exact lexes.lexing

/-- The spans of a scan are the one correct lexing of the source. -/
theorem spans_eq_iff_lexing (grammar : Grammar) (source : Text) (spans : List Span) :
    (ofSource grammar source).spans = spans ↔ Lexing grammar source spans := by
  constructor
  · intro scanned
    rw [← scanned]
    exact lexing_spans grammar source
  · intro lexing
    obtain ⟨lexes, placed⟩ := lexing.lexes
    rw [ofSource_of_lexes lexes]
    exact placed

end SourceDocs.Scan
