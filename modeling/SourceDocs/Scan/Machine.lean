import SourceDocs.Diagnostic
import SourceDocs.Grammar.Opener
import SourceDocs.Span

/-!
The scanning machine. It reads a source text from left to right in one of four modes and cuts it into
spans. The text is always the spans cut so far, the pending text of the open span and the rest.

Every step either moves on or leaves a comment or literal for code without moving, so the weight
`State.weight` falls and a run over `n` characters takes at most `2 * n` steps.
-/

namespace SourceDocs.Scan

inductive Mode where
  | code
  | line (index : Nat) (marker : LineMarker)
  | block (index : Nat) (style : BlockStyle)
  | string (index : Nat) (delimiter : StringDelimiter) (escaped : Bool)
deriving DecidableEq, Repr

def Mode.ofOpener : Opener → Mode
  | .line index marker => .line index marker
  | .block index style => .block index style
  | .string index delimiter => .string index delimiter false

/-- The machine between two steps. Lists that grow hold their newest element first. -/
structure State where
  mode : Mode
  start : Place
  pending : Text
  rest : Text
  spans : List Span
  diagnostics : List Diagnostic
deriving DecidableEq, Repr

namespace State

def initial (source : Text) : State := ⟨.code, .start, [], source, [], []⟩

def take (count : Nat) (state : State) : State :=
  { state with
    pending := (state.rest.take count).reverse ++ state.pending
    rest := state.rest.drop count }

def cut (kind : SpanKind) (state : State) : State :=
  match state.pending with
  | [] => { state with mode := .code }
  | _ :: _ =>
    let text := state.pending.reverse
    let stop := state.start.advance text
    { state with
      mode := .code
      start := stop
      pending := []
      spans := ⟨kind, state.start.offset, stop.offset, text⟩ :: state.spans }

def recover (construct : Construct) (state : State) : State :=
  { state with diagnostics := ⟨construct, state.start⟩ :: state.diagnostics }

def escapeAt? (delimiter : StringDelimiter) (rest : Text) : Option Marker :=
  delimiter.escape.filter (·.isAt rest)

def stepCode (grammar : Grammar) (state : State) : State :=
  match grammar.openerAt state.rest with
  | none => state.take 1
  | some opener =>
    { (state.cut .code).take opener.marker.text.length with mode := .ofOpener opener }

def stepLine (index : Nat) (marker : LineMarker) (state : State) : State :=
  (state.take (Text.lineLength state.rest)).cut (.line index marker)

def stepBlock (index : Nat) (style : BlockStyle) (state : State) : State :=
  match Text.lengthThrough? style.stop.text state.rest with
  | some count => (state.take count).cut (.block index style true)
  | none => ((state.take state.rest.length).recover .blockComment).cut (.block index style false)

/-- One step in a string literal. An escape takes the next character with it; a literal of one line
is left open before a line break. -/
def stepString (index : Nat) (delimiter : StringDelimiter) (escaped : Bool) (state : State) :
    State :=
  if escaped then { state.take 1 with mode := .string index delimiter false }
  else match escapeAt? delimiter state.rest with
    | some escape => { state.take escape.text.length with mode := .string index delimiter true }
    | none =>
      if delimiter.closing.isAt state.rest then
        (state.take delimiter.closing.text.length).cut (.string index delimiter true)
      else if !delimiter.multiline && Text.atLineBreak state.rest then
        (state.recover .stringLiteral).cut (.string index delimiter false)
      else state.take 1

/-- One step of the machine; it is taken only while there is text to read. -/
def step (grammar : Grammar) (state : State) : State :=
  match state.mode with
  | .code => state.stepCode grammar
  | .line index marker => state.stepLine index marker
  | .block index style => state.stepBlock index style
  | .string index delimiter escaped => state.stepString index delimiter escaped

/-- Twice the characters to read, and one for the step back to code. -/
def weight (state : State) : Nat :=
  2 * state.rest.length + match state.mode with
    | .code => 0
    | _ => 1

@[simp] theorem rest_take (count : Nat) (state : State) :
    (state.take count).rest = state.rest.drop count := rfl

@[simp] theorem mode_take (count : Nat) (state : State) :
    (state.take count).mode = state.mode := rfl

@[simp] theorem rest_cut (kind : SpanKind) (state : State) :
    (state.cut kind).rest = state.rest := by
  unfold cut
  split <;> rfl

@[simp] theorem mode_cut (kind : SpanKind) (state : State) : (state.cut kind).mode = .code := by
  unfold cut
  split <;> rfl

@[simp] theorem rest_recover (construct : Construct) (state : State) :
    (state.recover construct).rest = state.rest := rfl

theorem weight_le (state : State) : state.weight ≤ 2 * state.rest.length + 1 := by
  unfold weight
  split <;> omega

theorem weight_of_code {state : State} (inCode : state.mode = .code) :
    state.weight = 2 * state.rest.length := by
  simp [weight, inCode]

theorem weight_of_not_code {state : State} (outside : state.mode ≠ .code) :
    state.weight = 2 * state.rest.length + 1 := by
  unfold weight
  split
  · contradiction
  · rfl

private theorem weight_lt_of_read {state next : State}
    (read : next.rest.length < state.rest.length) : next.weight < state.weight := by
  have upper := next.weight_le
  have lower : 2 * state.rest.length ≤ state.weight := by unfold weight; omega
  omega

/-- A step back to code lowers the weight, even if nothing is read. -/
private theorem weight_lt_of_leave {state next : State} (outside : state.mode ≠ .code)
    (inCode : next.mode = .code) (kept : next.rest.length ≤ state.rest.length) :
    next.weight < state.weight := by
  rw [weight_of_code inCode, weight_of_not_code outside]
  omega

theorem weight_step_lt (grammar : Grammar) (state : State) (more : state.rest ≠ []) :
    (state.step grammar).weight < state.weight := by
  have size := List.length_pos_iff.mpr more
  unfold step
  split
  next inCode =>
    unfold stepCode
    split
    · exact weight_lt_of_read (by simp; omega)
    next opener _ =>
      have := opener.marker.text_length_pos
      exact weight_lt_of_read (by simp; omega)
  next inLine =>
    exact weight_lt_of_leave (by simp [inLine]) (by simp [stepLine]) (by simp [stepLine])
  next inBlock =>
    unfold stepBlock
    split
    · exact weight_lt_of_leave (by simp [inBlock]) (by simp) (by simp)
    · exact weight_lt_of_leave (by simp [inBlock]) (by simp) (by simp)
  next delimiter escaped inString =>
    unfold stepString
    split
    · exact weight_lt_of_read (by simp; omega)
    · split
      next escape _ =>
        have := escape.text_length_pos
        exact weight_lt_of_read (by simp; omega)
      · split
        · have := delimiter.closing.text_length_pos
          exact weight_lt_of_read (by simp; omega)
        · split
          · exact weight_lt_of_leave (by simp [inString]) (by simp) (by simp)
          · exact weight_lt_of_read (by simp; omega)

def run (grammar : Grammar) (state : State) : State :=
  if state.rest = [] then state else run grammar (state.step grammar)
termination_by state.weight
decreasing_by exact weight_step_lt grammar state (by assumption)

def finish (state : State) : State :=
  match state.mode with
  | .code => state.cut .code
  | .line index marker => state.cut (.line index marker)
  | .block index style => (state.recover .blockComment).cut (.block index style false)
  | .string index delimiter _ => (state.recover .stringLiteral).cut (.string index delimiter false)

end State

end SourceDocs.Scan
