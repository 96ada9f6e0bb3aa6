import Mathlib.Tactic.SplitIfs
import SourceDocs.Json.Basic

/-!
Reading JSON text. A first machine goes over the characters and gives the symbols that they spell; a
second one goes over the symbols and builds the value, with a stack of the arrays and objects that are
still open. Neither knows how the text was laid out. Main statement: from the text of a value, in
either layout, the value itself is read.

The value type has natural numbers only, so other numbers are refused. Everything else is read as the
format has it: white space between symbols, every escape with surrogate pairs, no raw control
characters in strings, no leading zeros, no comma without an item.
-/

namespace SourceDocs.Json

inductive Token where
  | openArray
  | closeArray
  | openObject
  | closeObject
  | comma
  | colon
  | null
  | bool (value : Bool)
  | num (value : Nat)
  | str (value : Text)
deriving DecidableEq, Repr

/-- Where the reader of symbols is. What was read of a string comes last character first. -/
inductive Mode where
  | between
  | string (read : Text)
  | escape (read : Text)
  /-- In a code of four hexadecimal digits, which may be the second of a pair. -/
  | code (read : Text) (first : Option Nat) (digits value : Nat)
  | paired (read : Text) (first : Nat)
  | pairedEscape (read : Text) (first : Nat)
  | number (value : Nat)
  | word (letters : Text)
deriving DecidableEq, Repr

def hexValue? (c : Char) : Option Nat :=
  if c.isDigit then some (c.toNat - '0'.toNat)
  else if 'a' ≤ c ∧ c ≤ 'f' then some (c.toNat - 'a'.toNat + 10)
  else if 'A' ≤ c ∧ c ≤ 'F' then some (c.toNat - 'A'.toNat + 10)
  else none

def word? (letters : Text) : Option Token :=
  if letters = "null".toList then some .null
  else if letters = "true".toList then some (.bool true)
  else if letters = "false".toList then some (.bool false)
  else none

def escaped? (c : Char) : Option Char :=
  match c with
  | '"' => some '"'
  | '\\' => some '\\'
  | '/' => some '/'
  | 'b' => some '\x08'
  | 'f' => some '\x0c'
  | 'n' => some '\n'
  | 'r' => some '\r'
  | 't' => some '\t'
  | _ => none

/-- Where a complete code leads: half of a pair waits for the other half. -/
def codeRead (read : Text) (first : Option Nat) (value : Nat) : Option Mode :=
  match first with
  | none =>
    if 0xD800 ≤ value ∧ value < 0xDC00 then some (.paired read value)
    else if 0xDC00 ≤ value ∧ value < 0xE000 then none
    else some (.string (Char.ofNat value :: read))
  | some high =>
    if 0xDC00 ≤ value ∧ value < 0xE000 then
      some (.string (Char.ofNat (0x10000 + (high - 0xD800) * 0x400 + (value - 0xDC00)) :: read))
    else none

def begin (c : Char) : Option (List Token × Mode) :=
  match c with
  | ' ' => some ([], .between)
  | '\t' => some ([], .between)
  | '\n' => some ([], .between)
  | '\r' => some ([], .between)
  | '[' => some ([.openArray], .between)
  | ']' => some ([.closeArray], .between)
  | '\x7b' => some ([.openObject], .between)
  | '\x7d' => some ([.closeObject], .between)
  | ',' => some ([.comma], .between)
  | ':' => some ([.colon], .between)
  | '"' => some ([], .string [])
  | _ =>
    if c.isDigit then some ([], .number (c.toNat - '0'.toNat))
    else if c.isLower then some ([], .word [c])
    else none

def Mode.step (c : Char) : Mode → Option (List Token × Mode)
  | between => begin c
  | string read =>
    if c = '"' then some ([.str read.reverse], between)
    else if c = '\\' then some ([], escape read)
    else if c.toNat < 0x20 then none
    else some ([], string (c :: read))
  | escape read =>
    if c = 'u' then some ([], code read none 0 0)
    else (escaped? c).map fun character => ([], string (character :: read))
  | code read first digits value =>
    (hexValue? c).bind fun digit =>
      let value := 16 * value + digit
      if digits < 3 then some ([], code read first (digits + 1) value)
      else (codeRead read first value).map fun mode => ([], mode)
  | paired read first => if c = '\\' then some ([], pairedEscape read first) else none
  | pairedEscape read first => if c = 'u' then some ([], code read (some first) 0 0) else none
  | number value =>
    if c.isDigit then
      if value = 0 then none else some ([], number (10 * value + (c.toNat - '0'.toNat)))
    else (begin c).map fun (tokens, mode) => (.num value :: tokens, mode)
  | word letters =>
    if c.isLower then some ([], word (letters ++ [c]))
    else (word? letters).bind fun token =>
      (begin c).map fun (tokens, mode) => (token :: tokens, mode)

def Mode.finish : Mode → Option (List Token)
  | between => some []
  | number value => some [.num value]
  | word letters => (word? letters).map ([·])
  | _ => none

def tokenize (mode : Mode) : Text → Option (List Token)
  | [] => mode.finish
  | c :: rest =>
    (mode.step c).bind fun (tokens, mode) => (tokenize mode rest).map (tokens ++ ·)

inductive Frame where
  | array (items : List Json)
  | object (fields : List (Text × Json)) (name : Text)

inductive State where
  | value (around : List Frame)
  | firstItem (around : List Frame)
  | behindItem (items : List Json) (around : List Frame)
  | firstName (around : List Frame)
  | nextName (fields : List (Text × Json)) (around : List Frame)
  | behindName (fields : List (Text × Json)) (name : Text) (around : List Frame)
  | behindField (fields : List (Text × Json)) (around : List Frame)
  | done (value : Json)

def settle (value : Json) : List Frame → State
  | [] => .done value
  | .array items :: around => .behindItem (value :: items) around
  | .object fields name :: around => .behindField ((name, value) :: fields) around

def open? (around : List Frame) : Token → Option State
  | .openArray => some (.firstItem around)
  | .openObject => some (.firstName around)
  | .null => some (settle .null around)
  | .bool value => some (settle (.bool value) around)
  | .num value => some (settle (.num value) around)
  | .str value => some (settle (.str value) around)
  | _ => none

def State.step (token : Token) : State → Option State
  | value around => open? around token
  | firstItem around =>
    if token = .closeArray then some (settle (.arr []) around)
    else open? (.array [] :: around) token
  | behindItem items around =>
    match token with
    | .comma => some (value (.array items :: around))
    | .closeArray => some (settle (.arr items.reverse) around)
    | _ => none
  | firstName around =>
    match token with
    | .closeObject => some (settle (.obj []) around)
    | .str name => some (behindName [] name around)
    | _ => none
  | nextName fields around =>
    match token with
    | .str name => some (behindName fields name around)
    | _ => none
  | behindName fields name around =>
    if token = .colon then some (value (.object fields name :: around)) else none
  | behindField fields around =>
    match token with
    | .comma => some (nextName fields around)
    | .closeObject => some (settle (.obj fields.reverse) around)
    | _ => none
  | done _ => none

def State.run : State → List Token → Option Json
  | done result, [] => some result
  | _, [] => none
  | state, token :: tokens => (state.step token).bind (run · tokens)

def read? (source : Text) : Option Json :=
  (tokenize .between source).bind (State.value []).run

mutual

def tokens : Json → List Token
  | null => [.null]
  | bool value => [.bool value]
  | num value => [.num value]
  | str value => [.str value]
  | arr [] => [.openArray, .closeArray]
  | arr (item :: items) => .openArray :: tokens item ++ itemTokens items ++ [.closeArray]
  | obj [] => [.openObject, .closeObject]
  | obj ((name, value) :: fields) =>
    .openObject :: .str name :: .colon :: tokens value ++ fieldTokens fields ++ [.closeObject]

def itemTokens : List Json → List Token
  | [] => []
  | item :: items => .comma :: tokens item ++ itemTokens items

def fieldTokens : List (Text × Json) → List Token
  | [] => []
  | (name, value) :: fields =>
    .comma :: .str name :: .colon :: tokens value ++ fieldTokens fields

end

/-- What may follow a number or a word without being read as a part of it. -/
def Parted (rest : Text) : Prop := ∀ c ∈ rest.head?, c.isDigit = false ∧ c.isLower = false

section Symbols

variable {mode next : Mode} {c : Char} {read rest : Text}

theorem tokenize_of_step {found : List Token} (leads : mode.step c = some (found, next)) :
    tokenize mode (c :: rest) = (tokenize next rest).map (found ++ ·) := by
  rw [tokenize, leads]
  rfl

theorem tokenize_of_quiet (next : Mode) (leads : mode.step c = some ([], next)) :
    tokenize mode (c :: rest) = tokenize next rest := by
  rw [tokenize_of_step leads]
  exact Option.map_id_apply

theorem tokenize_gap (layout : Layout) (depth : Nat) (rest : Text) :
    tokenize .between (gap layout depth ++ rest) = tokenize .between rest := by
  have blanks : ∀ count, tokenize .between (List.replicate count ' ' ++ rest) =
      tokenize .between rest := by
    intro count
    induction count with
    | zero => rfl
    | succ count ih =>
      rw [List.replicate_succ, List.cons_append, tokenize_of_quiet .between rfl, ih]
  cases layout with
  | compact => rfl
  | indented => rw [gap, List.cons_append, tokenize_of_quiet .between rfl, blanks]

theorem hexValue?_digitChar : ∀ digit < 16, hexValue? (Nat.digitChar digit) = some digit := by
  decide

theorem step_code {digit digits value : Nat} (hexadecimal : digit < 16) (more : digits < 3) :
    (Mode.code read none digits value).step (Nat.digitChar digit) =
      some ([], .code read none (digits + 1) (16 * value + digit)) := by
  simp [Mode.step, hexValue?_digitChar digit hexadecimal, more]

/-- Four hexadecimal digits stand for the character with that code. -/
theorem tokenize_hexDigits {n : Nat} (single : n < 0xD800) (read rest : Text) :
    tokenize (.code read none 0 0) (hexDigits n ++ rest) =
      tokenize (.string (Char.ofNat n :: read)) rest := by
  have last : (Mode.code read none 3 (n / 16)).step (Nat.digitChar (n % 16)) =
      some ([], .string (Char.ofNat n :: read)) := by
    have whole : 16 * (n / 16) + n % 16 = n := by omega
    have character : codeRead read none n = some (.string (Char.ofNat n :: read)) := by
      rw [codeRead, if_neg (by omega), if_neg (by omega)]
    simp [Mode.step, hexValue?_digitChar (n % 16) (by omega), whole, character]
  have third : 16 * (16 * (16 * 0 + n / 4096) + n / 256 % 16) + n / 16 % 16 = n / 16 := by omega
  calc tokenize (.code read none 0 0) (hexDigits n ++ rest)
    _ = tokenize (.code read none 1 _) _ := tokenize_of_quiet _ (step_code (by omega) (by omega))
    _ = tokenize (.code read none 2 _) _ := tokenize_of_quiet _ (step_code (by omega) (by omega))
    _ = tokenize (.code read none 3 _) _ := tokenize_of_quiet _ (step_code (by omega) (by omega))
    _ = tokenize (.string (Char.ofNat n :: read)) rest := by
      rw [third]
      exact tokenize_of_quiet _ last

theorem tokenize_writeChar (c : Char) (read rest : Text) :
    tokenize (.string read) (writeChar c ++ rest) = tokenize (.string (c :: read)) rest := by
  -- an escape of two characters
  have short : ∀ letter, letter ≠ 'u' → escaped? letter = some c →
      tokenize (.string read) (['\\', letter] ++ rest) = tokenize (.string (c :: read)) rest := by
    intro letter other stands
    have leads : (Mode.escape read).step letter = some ([], .string (c :: read)) := by
      simp [Mode.step, other, stands]
    exact (tokenize_of_quiet (.escape read) rfl).trans (tokenize_of_quiet _ leads)
  unfold writeChar
  split_ifs with quote backslash feed return_ tab backspace formFeed control
  · exact short '"' (by decide) (by rw [quote]; rfl)
  · exact short '\\' (by decide) (by rw [backslash]; rfl)
  · exact short 'n' (by decide) (by rw [feed]; rfl)
  · exact short 'r' (by decide) (by rw [return_]; rfl)
  · exact short 't' (by decide) (by rw [tab]; rfl)
  · exact short 'b' (by decide) (by rw [backspace]; rfl)
  · exact short 'f' (by decide) (by rw [formFeed]; rfl)
  · rw [List.cons_append, List.cons_append, tokenize_of_quiet (.escape read) rfl,
      tokenize_of_quiet (.code read none 0 0) rfl, tokenize_hexDigits (by omega),
      Char.ofNat_toNat]
  · apply tokenize_of_quiet
    simp [Mode.step, quote, backslash, control]

theorem tokenize_string (value read rest : Text) :
    tokenize (.string read) (value.flatMap writeChar ++ '"' :: rest) =
      (tokenize .between rest).map (.str (read.reverse ++ value) :: ·) := by
  induction value generalizing read with
  | nil =>
    have leads : (Mode.string read).step '"' = some ([.str read.reverse], .between) := rfl
    rw [List.flatMap_nil, List.nil_append, tokenize_of_step leads, List.append_nil]
    rfl
  | cons c value ih =>
    rw [List.flatMap_cons, List.append_assoc, tokenize_writeChar, ih, List.reverse_cons,
      List.append_assoc, List.singleton_append]

theorem tokenize_writeString (value rest : Text) :
    tokenize .between (writeString value ++ rest) =
      (tokenize .between rest).map (.str value :: ·) := by
  have text : writeString value ++ rest = '"' :: (value.flatMap writeChar ++ '"' :: rest) := by
    simp [writeString]
  rw [text, tokenize_of_quiet (.string []) rfl]
  exact tokenize_string value [] rest

theorem step_number {digit : Nat} (decimal : digit < 10) {value : Nat} (positive : value ≠ 0) :
    (Mode.number value).step (Nat.digitChar digit) =
      some ([], .number (10 * value + digit)) := by
  have code := Nat.toNat_digitChar_of_lt_ten decimal
  simp [Mode.step, Nat.isDigit_digitChar, decimal, positive, code]

theorem begin_digitChar : ∀ digit < 10,
    begin (Nat.digitChar digit) = some ([], .number digit) := by
  decide

/-- The digits of a number lead to that number. -/
theorem tokenize_toDigits (n : Nat) (rest : Text) :
    tokenize .between (Nat.toDigits 10 n ++ rest) = tokenize (.number n) rest := by
  induction n using Nat.strongRecOn generalizing rest with
  | ind n ih =>
    rw [Nat.toDigits_eq_if (by decide)]
    split
    next single => exact tokenize_of_quiet _ (begin_digitChar n single)
    next several =>
      have leads := step_number (Nat.mod_lt n (by decide : 0 < 10))
        (show n / 10 ≠ 0 by omega)
      have whole : 10 * (n / 10) + n % 10 = n := by omega
      rw [List.append_assoc, ih (n / 10) (by omega), List.singleton_append,
        tokenize_of_quiet _ leads, whole]

theorem tokenize_number (value : Nat) (parted : Parted rest) :
    tokenize (.number value) rest = (tokenize .between rest).map (.num value :: ·) := by
  cases rest with
  | nil => rfl
  | cons c rest =>
    have other := (parted c rfl).1
    simp only [tokenize, Mode.step, other]
    cases begin c <;> simp [Function.comp_def]

theorem tokenize_word {letters : Text} {token : Token} (stands : word? letters = some token)
    (parted : Parted rest) :
    tokenize (.word letters) rest = (tokenize .between rest).map (token :: ·) := by
  cases rest with
  | nil => simp [tokenize, Mode.finish, stands]
  | cons c rest =>
    have other := (parted c rfl).2
    simp only [tokenize, Mode.step, other, stands]
    cases begin c <;> simp [Function.comp_def]

theorem parted_of_head {c : Char} (digit : c.isDigit = false) (lower : c.isLower = false)
    (rest : Text) : Parted (c :: rest) := by
  intro d first
  obtain rfl := Option.some.inj first
  exact ⟨digit, lower⟩

theorem parted_gap (layout : Layout) (depth : Nat) (parted : Parted rest) :
    Parted (gap layout depth ++ rest) := by
  cases layout with
  | compact => exact parted
  | indented => exact parted_of_head rfl rfl _

theorem tokenize_letters {first : Char} {letters : Text} {token : Token}
    (begins : Mode.between.step first = some ([], .word [first]))
    (lower : letters.all Char.isLower = true)
    (stands : word? (first :: letters) = some token) (parted : Parted rest) :
    tokenize .between (first :: letters ++ rest) =
      (tokenize .between rest).map (token :: ·) := by
  have further : ∀ read, tokenize (.word read) (letters ++ rest) =
      tokenize (.word (read ++ letters)) rest := by
    clear stands
    induction letters with
    | nil => simp
    | cons c letters ih =>
      intro read
      rw [List.all_cons, Bool.and_eq_true] at lower
      have leads : (Mode.word read).step c = some ([], .word (read ++ [c])) := by
        simp [Mode.step, lower.1]
      rw [List.cons_append, tokenize_of_quiet _ leads, ih lower.2, List.append_assoc,
        List.singleton_append]
  rw [List.cons_append, tokenize_of_quiet _ begins, further]
  exact tokenize_word stands parted

theorem parted_writeItems (layout : Layout) (depth : Nat) (items : List Json)
    (parted : Parted rest) : Parted (writeItems layout depth items ++ rest) := by
  cases items with
  | nil => simpa [writeItems] using parted
  | cons item items =>
    rw [writeItems]
    exact parted_of_head rfl rfl _

theorem parted_writeFields (layout : Layout) (depth : Nat) (fields : List (Text × Json))
    (parted : Parted rest) : Parted (writeFields layout depth fields ++ rest) := by
  cases fields with
  | nil => simpa [writeFields] using parted
  | cons field fields =>
    rw [writeFields]
    exact parted_of_head rfl rfl _

theorem tokenize_colon (layout : Layout) (rest : Text) :
    tokenize .between (colon layout ++ rest) = (tokenize .between rest).map (.colon :: ·) := by
  have leads : Mode.between.step ':' = some ([.colon], .between) := rfl
  cases layout with
  | compact => exact tokenize_of_step leads
  | indented =>
    rw [colon, List.cons_append, List.singleton_append, tokenize_of_step leads,
      tokenize_of_quiet .between rfl]
    rfl

theorem opensArray : Mode.between.step '[' = some ([.openArray], .between) := rfl

theorem closesArray : Mode.between.step ']' = some ([.closeArray], .between) := rfl

theorem opensObject : Mode.between.step '\x7b' = some ([.openObject], .between) := rfl

theorem closesObject : Mode.between.step '\x7d' = some ([.closeObject], .between) := rfl

theorem separates : Mode.between.step ',' = some ([.comma], .between) := rfl

mutual

/-- The symbols of a value are those that its text spells, in either layout. -/
theorem tokenize_writeAt (layout : Layout) (depth : Nat) (value : Json) {rest : Text}
    (parted : Parted rest) :
    tokenize .between (writeAt layout depth value ++ rest) =
      (tokenize .between rest).map (tokens value ++ ·) := by
  match value with
  | null =>
    rw [writeAt, tokens]
    exact tokenize_letters rfl rfl rfl parted
  | bool true =>
    rw [writeAt, tokens]
    exact tokenize_letters rfl rfl rfl parted
  | bool false =>
    rw [writeAt, tokens]
    exact tokenize_letters rfl rfl rfl parted
  | num value =>
    rw [writeAt, tokens, tokenize_toDigits]
    exact tokenize_number value parted
  | str value =>
    rw [writeAt, tokens]
    exact tokenize_writeString value rest
  | arr [] =>
    simp only [writeAt, tokens, List.cons_append, List.nil_append]
    rw [tokenize_of_step opensArray, tokenize_of_step closesArray]
    simp [Function.comp_def]
  | arr (item :: items) =>
    have close := parted_gap layout depth (parted_of_head (c := ']') rfl rfl rest)
    have behind := parted_writeItems layout (depth + 1) items close
    simp only [writeAt, tokens, List.cons_append, List.append_assoc, List.nil_append]
    rw [tokenize_of_step opensArray, tokenize_gap,
      tokenize_writeAt layout (depth + 1) item behind,
      tokenize_writeItems layout (depth + 1) items close, tokenize_gap,
      tokenize_of_step closesArray]
    simp [Function.comp_def]
  | obj [] =>
    simp only [writeAt, tokens, List.cons_append, List.nil_append]
    rw [tokenize_of_step opensObject, tokenize_of_step closesObject]
    simp [Function.comp_def]
  | obj ((name, value) :: fields) =>
    have close := parted_gap layout depth (parted_of_head (c := '\x7d') rfl rfl rest)
    have behind := parted_writeFields layout (depth + 1) fields close
    simp only [writeAt, tokens, List.cons_append, List.append_assoc, List.nil_append]
    rw [tokenize_of_step opensObject, tokenize_gap, tokenize_writeString, tokenize_colon,
      tokenize_writeAt layout (depth + 1) value behind,
      tokenize_writeFields layout (depth + 1) fields close, tokenize_gap,
      tokenize_of_step closesObject]
    simp [Function.comp_def]

theorem tokenize_writeItems (layout : Layout) (depth : Nat) (items : List Json) {rest : Text}
    (parted : Parted rest) :
    tokenize .between (writeItems layout depth items ++ rest) =
      (tokenize .between rest).map (itemTokens items ++ ·) := by
  match items with
  | [] => simp [writeItems, itemTokens]
  | item :: items =>
    have behind := parted_writeItems layout depth items parted
    simp only [writeItems, itemTokens, List.cons_append, List.append_assoc]
    rw [tokenize_of_step separates, tokenize_gap, tokenize_writeAt layout depth item behind,
      tokenize_writeItems layout depth items parted]
    simp [Function.comp_def]

theorem tokenize_writeFields (layout : Layout) (depth : Nat) (fields : List (Text × Json))
    {rest : Text} (parted : Parted rest) :
    tokenize .between (writeFields layout depth fields ++ rest) =
      (tokenize .between rest).map (fieldTokens fields ++ ·) := by
  match fields with
  | [] => simp [writeFields, fieldTokens]
  | (name, value) :: fields =>
    have behind := parted_writeFields layout depth fields parted
    simp only [writeFields, fieldTokens, List.cons_append, List.append_assoc]
    rw [tokenize_of_step separates, tokenize_gap, tokenize_writeString, tokenize_colon,
      tokenize_writeAt layout depth value behind, tokenize_writeFields layout depth fields parted]
    simp [Function.comp_def]

end

end Symbols

section Values

variable {around : List Frame} {rest : List Token}

theorem run_of_step {state : State} {token : Token} (next : State)
    (leads : state.step token = some next) :
    state.run (token :: rest) = next.run rest := by
  cases state <;> simp [State.run, leads]

theorem tokens_head (value : Json) : ∃ token others, tokens value = token :: others ∧
    token ≠ .closeArray := by
  cases value with
  | null => exact ⟨_, _, rfl, by decide⟩
  | bool value => exact ⟨_, _, rfl, nofun⟩
  | num value => exact ⟨_, _, rfl, nofun⟩
  | str value => exact ⟨_, _, rfl, nofun⟩
  | arr items => cases items <;> exact ⟨_, _, rfl, by decide⟩
  | obj fields => cases fields <;> exact ⟨_, _, rfl, by decide⟩

/-- Where an array may end or have an item, an item is read like any other. -/
theorem run_firstItem (value : Json) (around : List Frame) (rest : List Token) :
    (State.firstItem around).run (tokens value ++ rest) =
      (State.value (.array [] :: around)).run (tokens value ++ rest) := by
  obtain ⟨token, others, split, other⟩ := tokens_head value
  rw [split, List.cons_append, State.run, State.run]
  simp [State.step, other]

mutual

/-- The symbols of a value lead to that value, whatever is open around it and comes behind it. -/
theorem run_tokens (value : Json) (around : List Frame) (rest : List Token) :
    (State.value around).run (tokens value ++ rest) = (settle value around).run rest := by
  match value with
  | null => exact run_of_step _ rfl
  | bool value => exact run_of_step _ rfl
  | num value => exact run_of_step _ rfl
  | str value => exact run_of_step _ rfl
  | arr [] => exact (run_of_step _ rfl).trans (run_of_step _ rfl)
  | arr (item :: items) =>
    simp only [tokens, List.cons_append, List.append_assoc, List.nil_append]
    rw [run_of_step (.firstItem around) rfl, run_firstItem, run_tokens item, settle,
      run_itemTokens items]
    rfl
  | obj [] => exact (run_of_step _ rfl).trans (run_of_step _ rfl)
  | obj ((name, value) :: fields) =>
    simp only [tokens, List.cons_append, List.append_assoc, List.nil_append]
    rw [run_of_step (.firstName around) rfl,
      run_of_step (.behindName [] name around) rfl,
      run_of_step (.value (.object [] name :: around)) rfl, run_tokens value, settle,
      run_fieldTokens fields]
    rfl

theorem run_itemTokens (items read : List Json) (around : List Frame) (rest : List Token) :
    (State.behindItem read around).run (itemTokens items ++ .closeArray :: rest) =
      (settle (.arr (read.reverse ++ items)) around).run rest := by
  match items with
  | [] =>
    rw [List.append_nil]
    exact run_of_step _ rfl
  | item :: items =>
    simp only [itemTokens, List.cons_append, List.append_assoc]
    rw [run_of_step (.value (.array read :: around)) rfl, run_tokens item, settle,
      run_itemTokens items, List.reverse_cons, List.append_assoc, List.singleton_append]

theorem run_fieldTokens (fields read : List (Text × Json)) (around : List Frame)
    (rest : List Token) :
    (State.behindField read around).run (fieldTokens fields ++ .closeObject :: rest) =
      (settle (.obj (read.reverse ++ fields)) around).run rest := by
  match fields with
  | [] =>
    rw [List.append_nil]
    exact run_of_step _ rfl
  | (name, value) :: fields =>
    simp only [fieldTokens, List.cons_append, List.append_assoc]
    rw [run_of_step (.nextName read around) rfl,
      run_of_step (.behindName read name around) rfl,
      run_of_step (.value (.object read name :: around)) rfl, run_tokens value, settle,
      run_fieldTokens fields, List.reverse_cons, List.append_assoc, List.singleton_append]

end

end Values

/-- Reading gives back what was written, in either layout. -/
theorem read?_write (layout : Layout) (value : Json) : read? (write layout value) = some value := by
  have spelled : tokenize .between (write layout value) = some (tokens value) := by
    have parted : Parted [] := nofun
    have whole := tokenize_writeAt layout 0 value parted
    rw [List.append_nil] at whole
    rw [write, whole]
    simp [tokenize, Mode.finish]
  have built := run_tokens value [] []
  rw [List.append_nil] at built
  rw [read?, spelled, Option.bind_some, built]
  rfl

end SourceDocs.Json
