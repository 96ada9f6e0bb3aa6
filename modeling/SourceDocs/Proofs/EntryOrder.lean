import SourceDocs.Document
import SourceDocs.Proofs.MovedSpans
import SourceDocs.Proofs.Priority

/-!
The order in which a language table lists its entries. Which entry opens at a place is decided by
the markers that stand there and not by the order, so two tables with the same entries differ only
in the positions that the spans carry, and a document does not show these.
-/

namespace SourceDocs

structure LanguageTable.Reordered (first second : LanguageTable) : Prop where
  name : first.name = second.name
  extensions : first.extensions = second.extensions
  highlight : first.highlight = second.highlight
  lineComments : first.lineComments.Perm second.lineComments
  docLineComments : first.docLineComments.Perm second.docLineComments
  blockComments : first.blockComments.Perm second.blockComments
  strings : first.strings.Perm second.strings

structure Grammar.SameEntries (grammar other : Grammar) : Prop where
  id : grammar.id = other.id
  highlight : grammar.highlight = other.highlight
  lines : grammar.lineMarkers.Perm other.lineMarkers
  blocks : grammar.blockStyles.Perm other.blockStyles
  strings : grammar.strings.Perm other.strings

namespace Grammar

private theorem mapM_perm {ε α β : Type} {f : α → Except ε β} {entries others : List α}
    {results results' : List β} (same : entries.Perm others)
    (compiled : entries.mapM f = .ok results) (compiled' : others.mapM f = .ok results') :
    results.Perm results' := by
  rw [← filterMap_of_mapM compiled, ← filterMap_of_mapM compiled']
  exact same.filterMap _

private theorem longestFirst_same {α : Type} {size : α → Nat} {entries others : List α}
    (same : entries.Perm others) : (longestFirst size entries).Perm (longestFirst size others) :=
  ((longestFirst_perm size entries).trans same).trans (longestFirst_perm size others).symm

/-- The styles already compiled only decide whether an entry is refused. -/
theorem compileBlock_alone {earlier : List BlockStyle} {entry : BlockEntry} {style : BlockStyle}
    (compiled : compileBlock earlier entry = .ok style) : compileBlock [] entry = .ok style :=
  compileBlock_eq_ok_iff.mpr ⟨(compileBlock_eq_ok_iff.mp compiled).1, by simp⟩

theorem compileBlocks_eq {earlier styles : List BlockStyle} {entries : List BlockEntry}
    (compiled : compileBlocks earlier entries = .ok styles) :
    styles = earlier ++ entries.filterMap fun entry => (compileBlock [] entry).toOption := by
  induction entries generalizing earlier with
  | nil =>
    obtain rfl := Except.ok.inj compiled
    rw [List.filterMap_nil, List.append_nil]
  | cons entry entries ih =>
    unfold compileBlocks at compiled
    split at compiled
    next => cases compiled
    next style here =>
      have kept : (compileBlock [] entry).toOption = some style := by
        rw [compileBlock_alone here]
        rfl
      rw [ih compiled, List.filterMap_cons_some (f := fun entry => (compileBlock [] entry).toOption)
        kept, List.append_assoc, List.singleton_append]

theorem sameEntries_of_reordered {id : Text} {first second : LanguageTable}
    {grammar other : Grammar} (reordered : first.Reordered second)
    (compiled : compile id first = .ok grammar) (compiled' : compile id second = .ok other) :
    grammar.SameEntries other := by
  obtain ⟨_, _, lines, blocks, strings, _, linesEq, stringsEq, idEq, highlightEq⟩ :=
    compileTable_eq_ok (compileTable_of_compile compiled)
  obtain ⟨_, _, lines', blocks', strings', _, linesEq', stringsEq', idEq', highlightEq'⟩ :=
    compileTable_eq_ok (compileTable_of_compile compiled')
  constructor
  · rw [idEq, idEq']
  · rw [highlightEq, highlightEq', reordered.highlight]
  · rw [linesEq, linesEq']
    refine longestFirst_same (mapM_perm ?_ lines lines')
    exact (reordered.lineComments.map _).append (reordered.docLineComments.map _)
  · rw [compileBlocks_eq blocks, compileBlocks_eq blocks']
    exact reordered.blockComments.filterMap _
  · rw [stringsEq, stringsEq']
    exact longestFirst_same (mapM_perm reordered.strings strings strings')

end Grammar

def Opener.placed (index : Nat) : Opener → Opener
  | line _ marker => .line index marker
  | block _ style => .block index style
  | string _ delimiter => .string index delimiter

def Opener.unplaced (opener : Opener) : Opener := opener.placed 0

@[simp] theorem Opener.marker_unplaced (opener : Opener) :
    opener.unplaced.marker = opener.marker := by
  cases opener <;> rfl

theorem Opener.unplaced_longer (first second : Opener) :
    (first.longer second).unplaced = first.unplaced.longer second.unplaced := by
  simp only [longer, marker_unplaced]
  split <;> rfl

namespace Marker

variable {α : Type} {marker : α → Marker} {rest : Text}

theorem standing_cons {entry : α} (stands : (marker entry).isAt rest = true) (entries : List α) :
    standing marker rest (entry :: entries) = entry :: standing marker rest entries :=
  List.filter_cons_of_pos stands

theorem find?_standing {sought : α → Bool}
    (stands : ∀ entry, sought entry = true → (marker entry).isAt rest = true) (entries : List α) :
    (standing marker rest entries).find? sought = entries.find? sought := by
  rw [standing, List.find?_filter]
  refine List.find?_congr ?_
  intro entry _
  rw [Bool.eq_iff_iff, decide_eq_true_eq]
  exact ⟨And.right, fun found => ⟨stands entry found, found⟩⟩

end Marker

/-- Of the styles that stand at a place, longest first, the one whose comment opens there. -/
def BlockStyle.chosen? (rest : Text) : List BlockStyle → Option BlockStyle
  | [] => none
  | first :: others => some ((others.find? fun style =>
      style.start.bytes < first.start.bytes && style.closesAtOnce rest).getD first)

namespace Grammar

variable {grammar other : Grammar} {rest : Text}

theorem lineAt_unplaced (grammar : Grammar) (rest : Text) :
    (grammar.lineAt rest).map Opener.unplaced =
      (Marker.standing LineMarker.marker rest grammar.lineMarkers).head?.map (.line 0) := by
  rw [lineAt, ← Marker.map_fst_find?, Option.map_map, Option.map_map]
  rfl

theorem stringAt_unplaced (grammar : Grammar) (rest : Text) :
    (grammar.stringAt rest).map Opener.unplaced =
      (Marker.standing StringDelimiter.opening rest grammar.strings).head?.map (.string 0) := by
  rw [stringAt, ← Marker.map_fst_find?, Option.map_map, Option.map_map]
  rfl

/-- The styles behind the first standing one, as the table lists them. -/
theorem standing_of_startAt {first : BlockStyle × Nat} (found : grammar.startAt rest = some first) :
    Marker.standing BlockStyle.start rest grammar.blockStyles =
      first.1 :: Marker.standing BlockStyle.start rest
        ((grammar.blockStyles.zipIdx.drop (first.2 + 1)).map Prod.fst) := by
  obtain ⟨stands, before, behind, split, absent⟩ := List.find?_eq_some_iff_append.mp found
  have place : first.2 = before.length := by
    have entry := congrArg (·[before.length]?) split
    simp only [List.getElem?_zipIdx, List.getElem?_append_right (Nat.le_refl _), Nat.sub_self,
      List.getElem?_cons_zero, Nat.zero_add] at entry
    obtain ⟨_, _, same⟩ := Option.map_eq_some_iff.mp entry
    rw [← same]
  have styles : grammar.blockStyles = before.map Prod.fst ++ first.1 :: behind.map Prod.fst := by
    rw [← List.zipIdx_map_fst 0 grammar.blockStyles, split, List.map_append, List.map_cons]
  have skipped : (before.map Prod.fst).filter (fun style => style.start.isAt rest) = [] := by
    rw [List.filter_eq_nil_iff]
    intro style member
    obtain ⟨entry, earlier, rfl⟩ := List.mem_map.mp member
    simpa using absent entry earlier
  have later : grammar.blockStyles.zipIdx.drop (first.2 + 1) = behind := by
    rw [split, place, ← List.singleton_append, ← List.append_assoc]
    exact List.drop_left' (by simp)
  rw [later, styles, ← Marker.standing_cons stands, Marker.standing, List.filter_append, skipped,
    List.nil_append]
  rfl

theorem blockAt_unplaced (grammar : Grammar) (rest : Text) :
    (grammar.blockAt rest).map Opener.unplaced =
      (BlockStyle.chosen? rest
        (Marker.standing BlockStyle.start rest grammar.blockStyles)).map (.block 0) := by
  rw [blockAt_eq_map]
  cases found : grammar.startAt rest with
  | none =>
    have none : Marker.standing BlockStyle.start rest grammar.blockStyles = [] := by
      rw [← List.head?_eq_none_iff, ← Marker.map_fst_find?, Option.map_eq_none_iff]
      exact found
    rw [none]
    rfl
  | some first =>
    rw [standing_of_startAt found, BlockStyle.chosen?, Marker.find?_standing, List.find?_map]
    · change _ = (some (((grammar.closingAt rest first).map Prod.fst).getD first.1)).map
        (Opener.block 0)
      rw [Option.map_some, Option.map_some, Option.map_some]
      cases grammar.closingAt rest first <;> rfl
    · intro style fits
      rw [Bool.and_eq_true] at fits
      exact Marker.isAt_iff.mpr (BlockStyle.start_of_closesAtOnce fits.2)

private theorem map_merge_longer (first second : Option Opener) :
    (first.merge Opener.longer second).map Opener.unplaced =
      (first.map Opener.unplaced).merge Opener.longer (second.map Opener.unplaced) := by
  cases first <;> cases second <;> simp [Option.merge, Opener.unplaced_longer]

def Agrees (grammar other : Grammar) : Prop :=
  ∀ rest, (grammar.openerAt rest).map Opener.unplaced = (other.openerAt rest).map Opener.unplaced

theorem SameEntries.agrees (same : grammar.SameEntries other) (ranked : grammar.Ranked)
    (ranked' : other.Ranked) : grammar.Agrees other := by
  intro rest
  simp only [openerAt_eq_merge, map_merge_longer, lineAt_unplaced, blockAt_unplaced,
    stringAt_unplaced]
  rw [ranked.lines.standing_eq ranked'.lines same.lines,
    ranked.blocks.standing_eq ranked'.blocks same.blocks,
    ranked.strings.standing_eq ranked'.strings same.strings]

namespace Agrees

theorem openerAt_eq_none_iff (agrees : grammar.Agrees other) :
    grammar.openerAt rest = none ↔ other.openerAt rest = none := by
  rw [← Option.map_eq_none_iff (f := Opener.unplaced), agrees, Option.map_eq_none_iff]

theorem exists_openerAt {opener : Opener} (agrees : grammar.Agrees other)
    (opens : grammar.openerAt rest = some opener) :
    ∃ index, other.openerAt rest = some (opener.placed index) := by
  have same := agrees rest
  rw [opens] at same
  obtain ⟨opener', opens', same⟩ := Option.map_eq_some_iff.mp same.symm
  cases opener <;> cases opener' <;> cases same <;> exact ⟨_, opens'⟩

end Agrees

end Grammar

def SpanKind.unplaced : SpanKind → SpanKind
  | code => code
  | line _ marker => line 0 marker
  | block _ style terminated => block 0 style terminated
  | string _ delimiter terminated => string 0 delimiter terminated

def Lexeme.unplaced (lexeme : Lexeme) : Lexeme := { lexeme with kind := lexeme.kind.unplaced }

def Span.unplaced (span : Span) : Span := { span with kind := span.kind.unplaced }

section Agreement

variable {grammar other : Grammar} {source text after rest : Text} {kind : SpanKind}
  {lexemes : List Lexeme}

theorem Reads.agree (agrees : grammar.Agrees other) (reads : Reads grammar text after kind) :
    ∃ kind', kind'.unplaced = kind.unplaced ∧ Reads other text after kind' := by
  match kind with
  | .code =>
    refine ⟨.code, rfl, ?_⟩
    intro front back split nonempty opens
    exact reads front back split nonempty fun quiet => opens (agrees.openerAt_eq_none_iff.mp quiet)
  | .line index marker =>
    obtain ⟨opens, ends⟩ := reads
    obtain ⟨index', opens'⟩ := agrees.exists_openerAt opens
    exact ⟨.line index' marker, rfl, opens', ends⟩
  | .block index style true =>
    obtain ⟨opens, ends⟩ := reads
    obtain ⟨index', opens'⟩ := agrees.exists_openerAt opens
    exact ⟨.block index' style true, rfl, opens', ends⟩
  | .block index style false =>
    obtain ⟨opens, ends⟩ := reads
    obtain ⟨index', opens'⟩ := agrees.exists_openerAt opens
    exact ⟨.block index' style false, rfl, opens', ends⟩
  | .string index delimiter terminated =>
    obtain ⟨opens, ends⟩ := reads
    obtain ⟨index', opens'⟩ := agrees.exists_openerAt opens
    exact ⟨.string index' delimiter terminated, rfl, opens', ends⟩

theorem SpanKind.eq_code_of_unplaced {kind' : SpanKind} (same : kind'.unplaced = kind.unplaced)
    (inCode : kind' = .code) : kind = .code := by
  subst inCode
  cases kind <;> cases same
  rfl

theorem Lexes.agree (agrees : grammar.Agrees other) (lexes : Lexes grammar source lexemes rest) :
    ∃ lexemes', lexemes'.map Lexeme.unplaced = lexemes.map Lexeme.unplaced ∧
      Lexes other source lexemes' rest := by
  induction lexemes generalizing source with
  | nil => exact ⟨[], rfl, lexes⟩
  | cons lexeme lexemes ih =>
    obtain ⟨after, split, nonempty, reads, ends, below⟩ := lexes
    obtain ⟨kind, sameKind, reads'⟩ := reads.agree agrees
    obtain ⟨lexemes', same, below'⟩ := ih below
    refine ⟨⟨kind, lexeme.text⟩ :: lexemes', ?_, after, split, nonempty, reads', ?_, below'⟩
    · rw [List.map_cons, List.map_cons, same, Lexeme.unplaced, Lexeme.unplaced, sameKind]
    · intro inCode
      have opens := ends (SpanKind.eq_code_of_unplaced sameKind inCode)
      rwa [ne_eq, ← agrees.openerAt_eq_none_iff]

end Agreement

namespace Lexeme

theorem place_unplaced (start : Place) (lexemes : List Lexeme) :
    place start (lexemes.map unplaced) = (place start lexemes).map Span.unplaced := by
  induction lexemes generalizing start with
  | nil => rfl
  | cons lexeme lexemes ih =>
    rw [List.map_cons, place, place, List.map_cons, unplaced, ih]
    rfl

theorem raised_unplaced (start : Place) (lexemes : List Lexeme) :
    raised start (lexemes.map unplaced) = raised start lexemes := by
  induction lexemes generalizing start with
  | nil => rfl
  | cons lexeme lexemes ih =>
    have leaves : lexeme.unplaced.kind.leftOpen? = lexeme.kind.leftOpen? := by
      unfold unplaced
      cases lexeme.kind with
      | block index style terminated => cases terminated <;> rfl
      | string index delimiter terminated => cases terminated <;> rfl
      | _ => rfl
    rw [List.map_cons, raised, raised, leaves, unplaced, ih]

end Lexeme

theorem Scan.ofSource_unplaced {grammar other : Grammar} (agrees : grammar.Agrees other)
    (source : Text) :
    (ofSource grammar source).spans.map Span.unplaced =
        (ofSource other source).spans.map Span.unplaced ∧
      (ofSource grammar source).diagnostics = (ofSource other source).diagnostics := by
  obtain ⟨lexemes, lexes, result⟩ := exists_lexes grammar source
  obtain ⟨lexemes', same, lexes'⟩ := lexes.agree agrees
  rw [result, ofSource_of_lexes lexes']
  dsimp only
  rw [← Lexeme.place_unplaced, ← Lexeme.place_unplaced, ← Lexeme.raised_unplaced _ lexemes,
    ← Lexeme.raised_unplaced _ lexemes', same]
  exact ⟨rfl, rfl⟩

theorem Span.documentation?_unplaced (span : Span) :
    span.unplaced.kind.documentation? = span.kind.documentation? := by
  unfold unplaced
  cases span.kind <;> rfl

theorem Comment.ofSpan_unplaced (span : Span) : ofSpan span.unplaced = ofSpan span := by
  unfold ofSpan Span.unplaced
  cases span.kind <;> rfl

theorem Moves.unplaced (source : Text) (spans : List Span) :
    Moves source source id Span.unplaced spans where
  classes := fun span _ => by
    rw [Span.isDocumentation, Span.documentation?_unplaced, Span.isDocumentation]
  prose := fun span _ _ => Comment.ofSpan_unplaced span
  joins := fun _ _ _ _ => rfl
  indents := fun _ _ => rfl
  starts := fun _ _ => rfl
  stops := fun _ _ => rfl

/-- The position of an entry does not reach the segments. -/
theorem Segment.ofSpans_unplaced (language source : Text) (spans : List Span) :
    ofSpans language source (spans.map Span.unplaced) = ofSpans language source spans := by
  have comments := (Moves.unplaced source spans).documentationComments_map
  have unmoved : Comment.moved id = id := rfl
  rw [unmoved, List.map_id] at comments
  rw [ofSpans, comments, ofSpans]

namespace Document

/-- A document does not depend on the order in which the table of its language lists the entries. -/
theorem ofSource_reordered {id : Text} {first second : LanguageTable} {grammar other : Grammar}
    (reordered : first.Reordered second) (compiled : Grammar.compile id first = .ok grammar)
    (compiled' : Grammar.compile id second = .ok other) (source : Text) :
    ofSource grammar source = ofSource other source := by
  have same := Grammar.sameEntries_of_reordered reordered compiled compiled'
  have agrees := same.agrees (Grammar.ranked_of_compile compiled)
    (Grammar.ranked_of_compile compiled')
  obtain ⟨spans, diagnostics⟩ := Scan.ofSource_unplaced agrees source
  unfold ofSource
  dsimp only
  rw [same.id, same.highlight, diagnostics, ← Segment.ofSpans_unplaced, spans,
    Segment.ofSpans_unplaced]

end Document

def LanguageTable.layered : LanguageTable where
  name := "Layered".toList
  extensions := []
  highlight := none
  lineComments := ["//".toList, "--".toList]
  docLineComments := ["///".toList, "//!".toList]
  blockComments := [.doc "/**".toList "*/".toList, .plain "/*".toList "*/".toList,
    .plain "(*".toList "*)".toList]
  strings := [.delimitedBy "\"".toList, .delimitedBy "\"\"\"".toList]

/-- A start that begins with another one has to stay in front of it. -/
def LanguageTable.turned : LanguageTable := { layered with
  lineComments := layered.lineComments.reverse
  docLineComments := layered.docLineComments.reverse
  blockComments := layered.blockComments.rotateRight
  strings := layered.strings.reverse }

def Grammar.layered : Grammar where
  id := "layered".toList
  name := "Layered".toList
  highlight := "layered".toList
  extensions := []
  lineMarkers := [⟨⟨'/', ['/', '/']⟩, true⟩, ⟨⟨'/', ['/', '!']⟩, true⟩, ⟨⟨'/', ['/']⟩, false⟩,
    ⟨⟨'-', ['-']⟩, false⟩]
  blockStyles := [⟨⟨'/', ['*', '*']⟩, ⟨'*', ['/']⟩, true, none⟩,
    ⟨⟨'/', ['*']⟩, ⟨'*', ['/']⟩, false, none⟩, ⟨⟨'(', ['*']⟩, ⟨'*', [')']⟩, false, none⟩]
  strings := [⟨⟨'"', ['"', '"']⟩, ⟨'"', ['"', '"']⟩, none, true⟩,
    ⟨⟨'"', []⟩, ⟨'"', []⟩, none, true⟩]

def Grammar.turned : Grammar := { layered with
  lineMarkers := [⟨⟨'/', ['/', '!']⟩, true⟩, ⟨⟨'/', ['/', '/']⟩, true⟩, ⟨⟨'-', ['-']⟩, false⟩,
    ⟨⟨'/', ['/']⟩, false⟩]
  blockStyles := layered.blockStyles.rotateRight }

theorem Document.ofSource_reordered_layered :
    LanguageTable.layered.Reordered .turned ∧
      Grammar.compile "layered".toList .layered = .ok .layered ∧
      Grammar.compile "layered".toList .turned = .ok .turned ∧
      ofSource .layered "/// a\n/**/ \"\"\" //! \"\"\" (*".toList =
        ofSource .turned "/// a\n/**/ \"\"\" //! \"\"\" (*".toList ∧
      ofSource .turned "/// a\n/**/ \"\"\" //! \"\"\" (*".toList =
        ⟨"layered".toList, [.documentation "a".toList 0 5,
          .code "\n/**/ \"\"\" //! \"\"\" (*".toList "layered".toList 5 25],
          [⟨.blockComment, ⟨23, 2, 18⟩⟩]⟩ := by
  have reordered : LanguageTable.layered.Reordered .turned := by
    constructor <;> decide +kernel
  have compiled : Grammar.compile "layered".toList .layered = .ok .layered := by decide +kernel
  have compiled' : Grammar.compile "layered".toList .turned = .ok .turned := by decide +kernel
  exact ⟨reordered, compiled, compiled', ofSource_reordered reordered compiled compiled' _,
    by decide +kernel⟩

end SourceDocs
