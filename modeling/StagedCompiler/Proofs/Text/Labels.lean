import Mathlib.Data.List.Nodup
import StagedCompiler.Manifest.Reader
import StagedCompiler.Proofs.Text.Occurrences

/-!
# What labels point at

Faults of units and manifests point at a name in the source.

* `Span.PointsAt` says that a span holds exactly the bytes of a name and cuts no character in two.  All
  searches for a span find such a span (`nameSpan?_pointsAt` and its siblings).
* The searches for an assigned or quoted name find a span exactly if one of the texts they look for is
  a part of the source.
* `valueSpans` lists the values of all assignments in ascending order, whatever quotes they stand in
  (`valueSpans_ascending`).  So the fault of a plugin that is enabled twice points at the first two
  places that give a plugin this identity.
-/

namespace StagedCompiler.Text

/-! ## Spans and the bytes they hold -/

/-- The span lies within the source, begins and ends between two of its characters, and holds the bytes
of the name. -/
structure Span.PointsAt (span : Span) (source name : String) : Prop where
  within : span.offset + span.length ≤ source.utf8ByteSize
  begins : String.Pos.Raw.IsValid source ⟨span.offset⟩
  ends : String.Pos.Raw.IsValid source ⟨span.offset + span.length⟩
  bytes : source.toUTF8.extract span.offset (span.offset + span.length) = name.toUTF8

/-- The length in bytes is the sum over the characters. -/
theorem byteLength_toList (s : String) : byteLength s.toList = s.utf8ByteSize := by
  have chars (cs : List Char) : byteLength cs = (String.ofList cs).utf8ByteSize := by
    induction cs with
    | nil => rfl
    | cons c rest ih =>
        rw [byteLength, ih, String.ofList_cons, String.utf8ByteSize_append, String.utf8ByteSize_singleton]
  rw [chars, String.ofList_toList]

/-- A name is pointed at by its place between the characters around it. -/
theorem pointsAt_of_split {source name : String} {front back : List Char}
    (whole : source.toList = front ++ name.toList ++ back) :
    Span.PointsAt ⟨byteLength front, byteLength name.toList⟩ source name := by
  obtain ⟨front, rfl⟩ : ∃ s : String, front = s.toList := ⟨.ofList front, by simp⟩
  obtain ⟨back, rfl⟩ : ∃ s : String, back = s.toList := ⟨.ofList back, by simp⟩
  obtain rfl : source = front ++ name ++ back := by
    rw [← String.toList_inj]
    simpa using whole
  rw [byteLength_toList, byteLength_toList]
  refine ⟨?_, ?_, ?_, ?_⟩
  · simp only [String.utf8ByteSize_append]
    omega
  · rw [String.Pos.Raw.isValid_iff_exists_append]
    exact ⟨front, name ++ back, String.append_assoc, rfl⟩
  · rw [String.Pos.Raw.isValid_iff_exists_append]
    refine ⟨front ++ name, back, rfl, ?_⟩
    ext
    simp
  · have outer := @ByteArray.extract_append_size_add front.toByteArray
      (name.toByteArray ++ back.toByteArray) 0 name.toByteArray.size
    rw [Nat.add_zero, ByteArray.extract_append_eq_left rfl] at outer
    rw [String.toUTF8_eq_toByteArray, String.toUTF8_eq_toByteArray, String.toByteArray_append,
      String.toByteArray_append, ByteArray.append_assoc]
    exact outer

/-! ## Assigned values -/

section Assignments

variable {source key value : String} {quote : Char} {place : Nat} {span : Span}

theorem utf8Size_of_mem_quotes (quoting : quote ∈ quotes) : quote.utf8Size = 1 := by
  simp only [quotes, List.mem_cons, List.not_mem_nil, or_false] at quoting
  rcases quoting with rfl | rfl <;> rfl

theorem assignment_ne_nil : assignment key quote value ≠ [] := by
  simp [assignment]

/-- The value stands behind the key, three characters and a quote, all four of one byte each. -/
theorem assignedSpan_pointsAt (quoting : quote ∈ quotes)
    (stands : StandsAt (assignment key quote value) source.toList 0 place) :
    (assignedSpan key value place).PointsAt source value := by
  obtain ⟨front, ⟨back, whole⟩, rfl⟩ := stands
  have split : source.toList =
      (front ++ key.toList ++ [' ', '=', ' ', quote]) ++ value.toList ++ (quote :: back) := by
    rw [← whole]
    simp [assignment]
  have bytes : byteLength (front ++ key.toList ++ [' ', '=', ' ', quote]) =
      0 + byteLength front + byteLength key.toList + 4 := by
    simp only [byteLength_append, byteLength, utf8Size_of_mem_quotes quoting, Nat.zero_add]
    rfl
  rw [assignedSpan, ← bytes]
  exact pointsAt_of_split split

/-- What is found for a key and a value points at the value. -/
theorem assignedSpan?_pointsAt (quoting : quote ∈ quotes)
    (found : assignedSpan? source key quote value = some span) : span.PointsAt source value := by
  obtain ⟨place, first, rfl⟩ := Option.map_eq_some_iff.mp found
  exact assignedSpan_pointsAt quoting (mem_occurrences_iff.mp (List.mem_of_head? first))

/-- Something is found exactly if the assignment occurs in the text. -/
theorem isSome_assignedSpan?_iff :
    (assignedSpan? source key quote value).isSome = true ↔
      assignment key quote value <:+: source.toList := by
  rw [assignedSpan?, Option.isSome_map, List.isSome_head?, occurrences_ne_nil_iff]

end Assignments

/-! ## The searches for one span -/

section Searches

variable {source name : String} {span : Span}

/-- The label of a unit points at its name. -/
theorem unitSpan?_pointsAt (found : unitSpan? source name = some span) :
    span.PointsAt source name := by
  obtain ⟨quote, quoting, here⟩ := List.exists_of_findSome?_eq_some found
  exact assignedSpan?_pointsAt quoting here

theorem isSome_unitSpan?_iff :
    (unitSpan? source name).isSome = true ↔
      ∃ quote ∈ quotes, assignment "unit" quote name <:+: source.toList := by
  simp only [unitSpan?, List.findSome?_isSome_iff, isSome_assignedSpan?_iff]

/-- The label of a name points at the name, behind either of two keys. -/
theorem nameSpan?_pointsAt (found : nameSpan? source name = some span) :
    span.PointsAt source name := by
  obtain ⟨quote, quoting, found⟩ := List.exists_of_findSome?_eq_some found
  obtain ⟨key, _, here⟩ := List.exists_of_findSome?_eq_some found
  exact assignedSpan?_pointsAt quoting here

theorem isSome_nameSpan?_iff :
    (nameSpan? source name).isSome = true ↔
      ∃ quote ∈ quotes, ∃ key ∈ ["name", "callee"],
        assignment key quote name <:+: source.toList := by
  simp only [nameSpan?, List.findSome?_isSome_iff, isSome_assignedSpan?_iff]

/-- The label of a quoted name points inside the quotes. -/
theorem lastQuotedSpan?_pointsAt (found : lastQuotedSpan? source name = some span) :
    span.PointsAt source name := by
  obtain ⟨place, last, rfl⟩ := Option.map_eq_some_iff.mp found
  obtain ⟨front, ⟨back, whole⟩, rfl⟩ := mem_occurrences_iff.mp (List.mem_of_getLast? last)
  have split : source.toList = (front ++ ['"']) ++ name.toList ++ ('"' :: back) := by
    rw [← whole]
    simp
  have bytes : byteLength (front ++ ['"']) = 0 + byteLength front + 1 := by
    rw [byteLength_append, Nat.zero_add]
    rfl
  rw [← bytes]
  exact pointsAt_of_split split

theorem isSome_lastQuotedSpan?_iff :
    (lastQuotedSpan? source name).isSome = true ↔
      ['"'] ++ name.toList ++ ['"'] <:+: source.toList := by
  rw [lastQuotedSpan?, Option.isSome_map, List.getLast?_isSome, occurrences_ne_nil_iff]

end Searches

/-! ## Keys at the start of a line -/

/-- The lines of a text make up the text. -/
theorem flatten_lines (cs : List Char) : (lines cs).flatten = cs := by
  induction cs with
  | nil => rfl
  | cons c rest ih =>
      rw [lines]
      split
      · simp [ih]
      · split
        · rename_i empty
          obtain rfl : [] = rest := by rwa [empty] at ih
          rfl
        · rename_i line more found
          rw [found] at ih
          exact congrArg (c :: ·) ih

section Keys

variable {source key : String} {span : Span} {front : List Char}

/-- What is found for a key in a line points at the key, behind the blanks of the line. -/
theorem lineKeySpan?_pointsAt {line back : List Char}
    (found : lineKeySpan? key.toList line (byteLength front) = some span)
    (whole : source.toList = front ++ line ++ back) : span.PointsAt source key := by
  rw [lineKeySpan?] at found
  split at found
  · rename_i assigned
    rw [Bool.and_eq_true, List.isPrefixOf_iff_prefix] at assigned
    obtain ⟨⟨rest, begun⟩, _⟩ := assigned
    obtain rfl := Option.some.inj found
    -- What is in front of the key is the indentation that trimming takes off.
    have halves : line = line.takeWhile isBlank ++ trimStart line :=
      List.takeWhile_append_dropWhile.symm
    have indent : byteLength line - byteLength (trimStart line) =
        byteLength (line.takeWhile isBlank) := by
      have bytes := congrArg byteLength halves
      rw [byteLength_append] at bytes
      omega
    have split : source.toList =
        (front ++ line.takeWhile isBlank) ++ key.toList ++ (rest ++ back) := by
      rw [whole]
      conv_lhs => rw [halves, ← begun]
      simp
    rw [indent, ← byteLength_append]
    exact pointsAt_of_split split
  · cases found

/-- What is found for a key in the first line that has it points at the key. -/
theorem firstKeySpan?_pointsAt {ls : List (List Char)}
    (found : firstKeySpan? key.toList ls (byteLength front) = some span)
    (whole : source.toList = front ++ ls.flatten) : span.PointsAt source key := by
  induction ls generalizing front with
  | nil => cases found
  | cons line rest ih =>
      rw [firstKeySpan?, Option.or_eq_some_iff] at found
      rw [List.flatten_cons, ← List.append_assoc] at whole
      rcases found with here | ⟨_, later⟩
      · exact lineKeySpan?_pointsAt here whole
      · rw [← byteLength_append] at later
        exact ih later whole

theorem keySpan?_pointsAt (found : keySpan? source key = some span) : span.PointsAt source key :=
  @firstKeySpan?_pointsAt source key span [] _ found (flatten_lines _).symm

end Keys

/-! ## All assigned values -/

/-- An assignment of the value to `key` is met at `place` by a reader who goes through the source for one
sort of quotes.  Two places of one sort do not overlap. -/
def MetAt (source key value : String) (place : Nat) : Prop :=
  ∃ quote ∈ quotes, ∃ places,
    DisjointMatches (assignment key quote value) source.toList 0 places ∧ place ∈ places

section Values

variable {source key value : String} {place : Nat} {span : Span}

theorem assignments_met (quote : Char) :
    DisjointMatches (assignment key quote value) source.toList 0
      (disjointOccurrences (assignment key quote value) 0 source.toList 0) :=
  disjointMatches_disjointOccurrences assignment_ne_nil

theorem metAt_iff :
    MetAt source key value place ↔
      ∃ quote ∈ quotes,
        place ∈ disjointOccurrences (assignment key quote value) 0 source.toList 0 := by
  refine exists_congr fun quote => and_congr_right fun _ => ?_
  constructor
  · rintro ⟨places, met, member⟩
    rwa [(assignments_met quote).unique met]
  · exact fun member => ⟨_, assignments_met quote, member⟩

/-- The spans of a value are those of the places where an assignment of it is met. -/
theorem mem_valueSpans_iff :
    span ∈ valueSpans source key value ↔
      ∃ place, MetAt source key value place ∧ assignedSpan key value place = span := by
  simp only [valueSpans, List.mem_mergeSort, List.mem_flatMap, List.mem_map, metAt_iff]
  constructor
  · rintro ⟨quote, quoting, place, member, same⟩
    exact ⟨place, ⟨quote, quoting, member⟩, same⟩
  · rintro ⟨place, ⟨quote, quoting, member⟩, same⟩
    exact ⟨quote, quoting, place, member, same⟩

theorem valueSpans_pointsAt (member : span ∈ valueSpans source key value) :
    span.PointsAt source value := by
  obtain ⟨place, ⟨quote, quoting, places, met, here⟩, rfl⟩ := mem_valueSpans_iff.mp member
  exact assignedSpan_pointsAt quoting (met.standsAt here)

/-- At one place the value stands in one sort of quotes only. -/
theorem quote_eq_of_standsAt {text : List Char} {quote quote' : Char}
    (stands : StandsAt (assignment key quote value) text 0 place)
    (stands' : StandsAt (assignment key quote' value) text 0 place) : quote = quote' := by
  obtain ⟨front, begins, rfl⟩ := stands
  obtain ⟨front', begins', same⟩ := stands'
  obtain rfl := eq_of_prefix_of_byteLength ((List.prefix_append _ _).trans begins)
    ((List.prefix_append _ _).trans begins') (by omega)
  have lengths : (front ++ assignment key quote value).length =
      (front ++ assignment key quote' value).length := by simp [assignment]
  have texts := (List.prefix_of_prefix_length_le begins begins' lengths.le).eq_of_length lengths
  simpa [assignment] using texts

theorem assignedSpan_offset_lt_iff {a b : Nat} :
    (assignedSpan key value a).offset < (assignedSpan key value b).offset ↔ a < b := by
  simp only [assignedSpan]
  omega

theorem assignedSpan_injective : Function.Injective (assignedSpan key value) := by
  intro a b same
  have offsets := congrArg Span.offset same
  simp only [assignedSpan] at offsets
  omega

/-- No value is listed twice. -/
theorem valueSpans_nodup : (valueSpans source key value).Nodup := by
  rw [valueSpans, (List.mergeSort_perm _ _).nodup_iff, List.nodup_flatMap]
  constructor
  · intro quote _
    have positive : 0 < byteLength (assignment key quote value) :=
      Nat.pos_of_ne_zero (mt byteLength_eq_zero_iff.mp assignment_ne_nil)
    have places : (disjointOccurrences (assignment key quote value) 0 source.toList 0).Nodup :=
      (assignments_met quote).apart.imp fun apart => by omega
    exact places.map assignedSpan_injective
  · have distinct : quotes.Nodup := by decide
    refine distinct.imp fun {quote quote'} ne span first second => ne ?_
    obtain ⟨place, here, rfl⟩ := List.mem_map.mp first
    obtain ⟨place', here', same⟩ := List.mem_map.mp second
    obtain rfl := assignedSpan_injective same
    exact quote_eq_of_standsAt ((assignments_met quote).standsAt here)
      ((assignments_met quote').standsAt here')

/-- They come in the order of the text. -/
theorem valueSpans_ascending :
    (valueSpans source key value).Pairwise (fun a b => a.offset < b.offset) := by
  have trans (a b c : Span) (first : decide (a.offset ≤ b.offset) = true)
      (second : decide (b.offset ≤ c.offset) = true) : decide (a.offset ≤ c.offset) = true :=
    decide_eq_true (Nat.le_trans (of_decide_eq_true first) (of_decide_eq_true second))
  have total (a b : Span) : (decide (a.offset ≤ b.offset) || decide (b.offset ≤ a.offset)) = true := by
    simp [Nat.le_total]
  have sorted : (valueSpans source key value).Pairwise
      (fun a b => decide (a.offset ≤ b.offset) = true) := List.pairwise_mergeSort trans total _
  refine (sorted.and valueSpans_nodup).imp_of_mem fun {a b} first second ⟨le, ne⟩ => ?_
  obtain ⟨place, _, rfl⟩ := mem_valueSpans_iff.mp first
  obtain ⟨place', _, rfl⟩ := mem_valueSpans_iff.mp second
  refine Nat.lt_of_le_of_ne (of_decide_eq_true le) fun same => ne ?_
  simp only [assignedSpan] at same
  rw [show place = place' by omega]

end Values

/-! ## Two spans of one name -/

/-- `a` and `b` are the two least of the places. -/
structure TwoLeast (places : Nat → Prop) (a b : Nat) : Prop where
  first : places a
  second : places b
  lt : a < b
  others : ∀ place, places place → place = a ∨ b ≤ place

/-- The two spans that an ascending list begins with are the two least of it. -/
theorem first_two_iff {spans : List Span} {first second : Span}
    (ascending : spans.Pairwise (fun a b => a.offset < b.offset)) :
    spans[0]? = some first ∧ spans[1]? = some second ↔
      first ∈ spans ∧ second ∈ spans ∧ first.offset < second.offset ∧
        ∀ span ∈ spans, span = first ∨ second.offset ≤ span.offset := by
  match spans, ascending with
  | [], _ => simp
  | [x], _ =>
      refine iff_of_false (by simp) fun ⟨here, next, lt, _⟩ => ?_
      rw [List.mem_singleton.mp here, List.mem_singleton.mp next] at lt
      exact Nat.lt_irrefl _ lt
  | x :: y :: more, ascending =>
      obtain ⟨behind, ascending⟩ := List.pairwise_cons.mp ascending
      obtain ⟨behind', _⟩ := List.pairwise_cons.mp ascending
      have lt : x.offset < y.offset := behind y List.mem_cons_self
      constructor
      · rintro ⟨here, next⟩
        obtain rfl := Option.some.inj here
        obtain rfl := Option.some.inj next
        refine ⟨by simp, by simp, lt, fun span member => ?_⟩
        rcases List.mem_cons.mp member with rfl | member
        · exact .inl rfl
        rcases List.mem_cons.mp member with rfl | member
        · exact .inr (Nat.le_refl _)
        · exact .inr (Nat.le_of_lt (behind' span member))
      · rintro ⟨here, next, lt', rest⟩
        -- What the list begins with is before all else, and only `first` is before `second`.
        have begins : x = first := by
          rcases List.mem_cons.mp here with same | later
          · exact same.symm
          have := behind first later
          rcases rest x List.mem_cons_self with same | least
          · exact same
          · omega
        subst begins
        have follows : y = second := by
          rcases List.mem_cons.mp next with rfl | later
          · omega
          rcases List.mem_cons.mp later with same | later
          · exact same.symm
          have := behind' second later
          rcases rest y (List.mem_cons_of_mem _ List.mem_cons_self) with rfl | least <;> omega
        exact ⟨rfl, congrArg some follows⟩

/-- The fault of a plugin that is enabled twice points at the two least places of all that were met. -/
theorem duplicatePlugin_eq_iff {source id : String} {first second : Span} :
    Manifest.duplicatePlugin source id = .duplicatePlugin id (some first) (some second) ↔
      ∃ a b, TwoLeast (MetAt source "id" id) a b ∧
        assignedSpan "id" id a = first ∧ assignedSpan "id" id b = second := by
  have spans : Manifest.duplicatePlugin source id = .duplicatePlugin id (some first) (some second) ↔
      (valueSpans source "id" id)[0]? = some first ∧ (valueSpans source "id" id)[1]? = some second := by
    simp [Manifest.duplicatePlugin]
  rw [spans, first_two_iff valueSpans_ascending]
  constructor
  · rintro ⟨here, next, lt, rest⟩
    obtain ⟨a, met, rfl⟩ := mem_valueSpans_iff.mp here
    obtain ⟨b, met', rfl⟩ := mem_valueSpans_iff.mp next
    refine ⟨a, b, ⟨met, met', assignedSpan_offset_lt_iff.mp lt, fun place here => ?_⟩, rfl, rfl⟩
    rcases rest _ (mem_valueSpans_iff.mpr ⟨place, here, rfl⟩) with same | least
    · exact .inl (assignedSpan_injective same)
    · exact .inr (not_lt.mp (mt assignedSpan_offset_lt_iff.mpr (not_lt.mpr least)))
  · rintro ⟨a, b, least, rfl, rfl⟩
    refine ⟨mem_valueSpans_iff.mpr ⟨a, least.first, rfl⟩, mem_valueSpans_iff.mpr ⟨b, least.second, rfl⟩,
      assignedSpan_offset_lt_iff.mpr least.lt, fun span member => ?_⟩
    obtain ⟨place, met, rfl⟩ := mem_valueSpans_iff.mp member
    rcases least.others place met with rfl | later
    · exact .inl rfl
    · exact .inr (not_lt.mp (mt assignedSpan_offset_lt_iff.mp (not_lt.mpr later)))

/-- Whatever a search finds holds exactly the name that it was asked for.  The searches for an assigned or
quoted name succeed exactly if one of their texts is a part of the source.  And a plugin that is enabled
twice is pointed at in the order of the source: at the two least of the places at which its identity is
met, those in double quotes and those in single quotes taken together. -/
theorem labels_point_at_names :
    (∀ (source name : String) (span : Span),
      nameSpan? source name = some span ∨ unitSpan? source name = some span ∨
          lastQuotedSpan? source name = some span ∨ keySpan? source name = some span ∨
          (∃ key, span ∈ valueSpans source key name) →
        span.PointsAt source name) ∧
    (∀ source name : String,
      ((nameSpan? source name).isSome = true ↔
        ∃ quote ∈ quotes, ∃ key ∈ ["name", "callee"],
          assignment key quote name <:+: source.toList) ∧
      ((unitSpan? source name).isSome = true ↔
        ∃ quote ∈ quotes, assignment "unit" quote name <:+: source.toList) ∧
      ((lastQuotedSpan? source name).isSome = true ↔
        ['"'] ++ name.toList ++ ['"'] <:+: source.toList)) ∧
    (∀ (source id : String) (first second : Span),
      Manifest.duplicatePlugin source id = .duplicatePlugin id (some first) (some second) ↔
        first.offset < second.offset ∧
          ∃ a b, TwoLeast (MetAt source "id" id) a b ∧
            assignedSpan "id" id a = first ∧ assignedSpan "id" id b = second) := by
  refine ⟨fun source name span found => ?_,
    fun source name => ⟨isSome_nameSpan?_iff, isSome_unitSpan?_iff, isSome_lastQuotedSpan?_iff⟩,
    fun source id first second => ?_⟩
  · rcases found with found | found | found | found | ⟨key, found⟩
    · exact nameSpan?_pointsAt found
    · exact unitSpan?_pointsAt found
    · exact lastQuotedSpan?_pointsAt found
    · exact keySpan?_pointsAt found
    · exact valueSpans_pointsAt found
  · rw [duplicatePlugin_eq_iff]
    refine ⟨fun ⟨a, b, least, here, next⟩ => ⟨?_, a, b, least, here, next⟩, And.right⟩
    rw [← here, ← next]
    exact assignedSpan_offset_lt_iff.mpr least.lt

/-- A name of one character in two bytes, assigned in single quotes before it is in double quotes. -/
theorem labels_point_at_names_accented :
    nameSpan? "id = 'é' id = \"é\" name = 'é'" "é" = some ⟨28, 2⟩ ∧
      Span.PointsAt ⟨28, 2⟩ "id = 'é' id = \"é\" name = 'é'" "é" ∧
      ⟨16, 2⟩ ∈ valueSpans "id = 'é' id = \"é\" name = 'é'" "id" "é" ∧
      Span.PointsAt ⟨16, 2⟩ "id = 'é' id = \"é\" name = 'é'" "é" := by
  have named : nameSpan? "id = 'é' id = \"é\" name = 'é'" "é" = some ⟨28, 2⟩ := by decide +kernel
  have listed : ⟨16, 2⟩ ∈ valueSpans "id = 'é' id = \"é\" name = 'é'" "id" "é" := by
    rw [valueSpans, List.mem_mergeSort]
    decide +kernel
  exact ⟨named, labels_point_at_names.1 _ _ _ (.inl named), listed,
    labels_point_at_names.1 _ _ _ (.inr (.inr (.inr (.inr ⟨"id", listed⟩))))⟩

end StagedCompiler.Text
