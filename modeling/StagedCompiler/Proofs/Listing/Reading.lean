import StagedCompiler.Proofs.Listing.Correctness
import StagedCompiler.Proofs.Listing.LinedUnits

/-!
# Listings read back

A listing is a text, and what it computes is said of instructions.  `Instruction.ofText?` reads an
instruction from its line, and `readFunctions?` reads the functions from a whole text: each begins with
a line that begins with `fn`, and its code stands on the indented lines behind it.

* An instruction whose names are words is read back from its text (`Instruction.ofText?_text`).
* So are the functions of a listing whose names are words and whose unit has its name on one line
  (`readFunctions?_render`).
* Names in accepted units are identifiers.  What the machine does with the functions that are read from
  the text of such a unit is therefore what the lowered module does (`native_listing_reads`).
-/

namespace StagedCompiler

namespace Listing

/-- A text up to the first occurrence of a character, and what stands behind it if there is one. -/
def cut (c : Char) : List Char → List Char × Option (List Char)
  | [] => ([], none)
  | d :: rest => if d = c then ([], some rest) else (d :: (cut c rest).1, (cut c rest).2)

/-- A text is cut at the first separator. -/
theorem cut_append {c : Char} {front : List Char} (free : c ∉ front) (back : List Char) :
    cut c (front ++ c :: back) = (front, some back) := by
  induction front with
  | nil => rw [List.nil_append, cut, if_pos rfl]
  | cons d front ih =>
      rw [List.mem_cons, not_or] at free
      rw [List.cons_append, cut, if_neg (Ne.symm free.1), ih free.2]

end Listing

namespace Instruction

open Listing (cut cut_append Plain)

/-! ## Instructions -/

/-- A call: the number of arguments stands behind the last slash. -/
def readCall? (text : List Char) : Option Instruction :=
  match cut '/' text.reverse with
  | (digits, some name) =>
    match Json.readNat digits.reverse with
    | some (n, []) => some (.call (String.ofList name.reverse) n)
    | _ => none
  | (_, none) => none

/-- A field: the class stands before the first dot. -/
def readGetField? (text : List Char) : Option Instruction :=
  match cut '.' text with
  | (owner, some name) => some (.getField (String.ofList owner) (String.ofList name))
  | (_, none) => none

/-- The instructions that say more than a word, by their first word. -/
def operands? (word : String) (text : List Char) : Option Instruction :=
  match word with
  | "push" => (Constant.ofText? (String.ofList text)).map .push
  | "load" => some (.load (String.ofList text))
  | "store" => some (.store (String.ofList text))
  | "call" => readCall? text
  | "getfield" => readGetField? text
  | _ => none

/-- The instructions that are one word. -/
def words : List (String × Instruction) :=
  [("add", .operate .add), ("sub", .operate .sub), ("mul", .operate .mul), ("div", .operate .div),
    ("eq", .operate .eq), ("lt", .operate .lt), ("pop", .pop), ("ret", .ret)]

/-- The instruction that a text stands for. -/
def ofText? (text : String) : Option Instruction :=
  match cut ' ' text.toList with
  | (word, none) => words.lookup (String.ofList word)
  | (word, some rest) => operands? (String.ofList word) rest

/-- An instruction is a word and what stands behind the first blank. -/
theorem ofText?_word (word : String) (free : ' ' ∉ word.toList) (rest : String) :
    ofText? (word ++ " " ++ rest) = operands? word rest.toList := by
  have split : (word ++ " " ++ rest).toList = word.toList ++ ' ' :: rest.toList := by simp
  rw [ofText?, split, cut_append free]
  simp only [String.ofList_toList]

/-- A call is read back: the number of arguments stands behind the last slash. -/
theorem readCall?_text (name : String) (n : Nat) :
    readCall? (name ++ "/" ++ toString n).toList = some (.call name n) := by
  have noSlash : '/' ∉ (Nat.toDigits 10 n).reverse := by
    intro member
    have isDigit := Nat.isDigit_of_mem_toDigits (by decide) (by decide) (List.mem_reverse.mp member)
    cases isDigit
  have back : (name ++ "/" ++ toString n).toList.reverse =
      (Nat.toDigits 10 n).reverse ++ '/' :: name.toList.reverse := by simp
  have read := Json.readNat_toDigits n Json.stops_nil
  rw [List.append_nil] at read
  rw [readCall?, back, cut_append noSlash]
  simp only [List.reverse_reverse, read, String.ofList_toList]

/-- A read of a field is read back if the owner has no dot in its name. -/
theorem readGetField?_text {owner : String} (free : '.' ∉ owner.toList) (name : String) :
    readGetField? (owner ++ "." ++ name).toList = some (.getField owner name) := by
  have split : (owner ++ "." ++ name).toList = owner.toList ++ '.' :: name.toList := by simp
  rw [readGetField?, split, cut_append free]
  simp only [String.ofList_toList]

/-- An instruction whose names are words is read back from its text. -/
theorem ofText?_text {i : Instruction} (plain : Plain i) : ofText? i.text = some i := by
  cases i with
  | push value =>
      refine (ofText?_word "push" (by decide) value.text).trans ?_
      simp only [operands?, String.ofList_toList]
      rw [Constant.text, Constant.ofText?_textWith, Option.map_some]
  | load name =>
      refine (ofText?_word "load" (by decide) name).trans ?_
      simp only [operands?, String.ofList_toList]
  | store name =>
      refine (ofText?_word "store" (by decide) name).trans ?_
      simp only [operands?, String.ofList_toList]
  | call name arguments =>
      have whole : (Instruction.call name arguments).text =
          "call" ++ " " ++ (name ++ "/" ++ toString arguments) := by
        simp only [text, String.append_assoc]
        rfl
      rw [whole, ofText?_word _ (by decide)]
      exact readCall?_text name arguments
  | getField owner name =>
      have whole : (Instruction.getField owner name).text =
          "getfield" ++ " " ++ (owner ++ "." ++ name) := by
        simp only [text, String.append_assoc]
        rfl
      rw [whole, ofText?_word _ (by decide)]
      exact readGetField?_text (plain.1.notMem (by decide)) name
  | operate op => cases op <;> rfl
  | pop => rfl
  | ret => rfl

example : ofText? "call print/1" = some (.call "print" 1) := by decide +kernel

end Instruction

namespace Listing

open Text (OneLine Word)

/-! ## Headers -/

/-- The names of parameters: each stands before a colon, and commas stand between the parameters. -/
def readParams (text : List Char) : List String :=
  if text.isEmpty then []
  else (text.splitOn ',').map fun piece =>
    String.ofList (cut ':' (piece.dropWhile (· == ' '))).1

/-- The name of a function and those of its parameters, from what follows `fn`. -/
def readHeader? (text : List Char) : Option (String × List String) :=
  match cut '(' text with
  | (name, some rest) => some (String.ofList name, readParams (cut ')' rest).1)
  | (_, none) => none

theorem toList_memberText (m : Member) :
    m.text.toList = m.name.toList ++ ':' :: ' ' :: m.ty.toList := by
  simp [Member.text]

theorem Member.Clear.notMem {m : Member} (clear : m.Clear) {c : Char} (other : ¬ Text.WordChar c)
    (colon : c ≠ ':') (blank : c ≠ ' ') : c ∉ m.text.toList := by
  rw [toList_memberText, List.mem_append, List.mem_cons, List.mem_cons]
  rintro (name | same | same | ty)
  · exact clear.1.notMem other name
  · exact colon same
  · exact blank same
  · exact clear.2.notMem other ty

/-- The name of a parameter is read off its piece, with a blank in front of it or none. -/
theorem cut_memberText {m : Member} (clear : m.Clear) (blanks : List Char)
    (all : ∀ c ∈ blanks, c = ' ') :
    String.ofList (cut ':' ((blanks ++ m.text.toList).dropWhile (· == ' '))).1 = m.name := by
  have begins : m.text.toList.dropWhile (· == ' ') = m.text.toList := by
    rw [toList_memberText]
    cases name : m.name.toList with
    | nil => rfl
    | cons c rest =>
        have first : c ≠ ' ' := by
          rintro rfl
          exact clear.1.notMem (by decide) (name ▸ List.mem_cons_self)
        simp [first]
  rw [List.dropWhile_append_of_pos (by simpa using all), begins, toList_memberText,
    cut_append (clear.1.notMem (by decide)), String.ofList_toList]

/-- The pieces between the commas of a list of parameters. -/
theorem splitOn_members {m : Member} {rest : List Member} (clear : ∀ p ∈ m :: rest, p.Clear) :
    (", ".intercalate ((m :: rest).map Member.text)).toList.splitOn ',' =
      m.text.toList :: rest.map fun p => ' ' :: p.text.toList := by
  induction rest generalizing m with
  | nil =>
      have free := (clear m List.mem_cons_self).notMem (c := ',') (by decide) (by decide) (by decide)
      rw [List.map_cons, List.map_nil, String.intercalate_singleton]
      have alone : ∀ piece ∈ [m.text.toList], ',' ∉ piece := by simpa using free
      simpa using List.splitOn_intercalate ',' alone (List.cons_ne_nil _ _)
  | cons p rest ih =>
      rw [List.forall_mem_cons] at clear
      have free := clear.1.notMem (c := ',') (by decide) (by decide) (by decide)
      have pieces := ih clear.2
      rw [List.map_cons] at pieces
      rw [List.map_cons, List.map_cons, String.intercalate_cons_cons]
      have whole : (m.text ++ ", " ++ ", ".intercalate (p.text :: rest.map Member.text)).toList =
          m.text.toList ++ ',' :: ' ' :: (", ".intercalate (p.text :: rest.map Member.text)).toList := by
        simp
      rw [whole, List.splitOn_append_cons_self_of_not_mem free, List.splitOn_cons_eq_if_modifyHead,
        if_neg (by decide), pieces]
      rfl

/-- Parameters are read back by their names. -/
theorem readParams_text {params : List Member} (clear : ∀ p ∈ params, p.Clear) :
    readParams (", ".intercalate (params.map Member.text)).toList = params.map (·.name) := by
  cases params with
  | nil => rfl
  | cons m rest =>
      have pieces := splitOn_members clear
      have visible : (", ".intercalate ((m :: rest).map Member.text)).toList.isEmpty = false := by
        cases empty : (", ".intercalate ((m :: rest).map Member.text)).toList with
        | cons c cs => rfl
        | nil =>
            rw [empty, List.splitOn_nil, toList_memberText] at pieces
            simp at pieces
      rw [List.forall_mem_cons] at clear
      rw [readParams, visible, pieces, List.map_cons, List.map_map, List.map_cons]
      refine congrArg₂ List.cons (cut_memberText clear.1 [] (by simp)) ?_
      refine List.map_congr_left fun p member => ?_
      exact cut_memberText (clear.2 p member) [' '] (by simp)

/-- The header of a function is read back if the words in it are clear. -/
theorem readHeader?_header {name : String} {params : List Member} {result : Option String}
    {code : List Instruction} (clear : (Item.function name params result code).Clear) :
    ∃ text, (Item.function name params result code).header.toList = 'f' :: 'n' :: ' ' :: text ∧
      readHeader? text = some (name, params.map (·.name)) := by
  obtain ⟨named, members, -, -⟩ := clear
  have closed : ')' ∉ (", ".intercalate (params.map Member.text)).toList := by
    refine Text.notMem_intercalate (by decide) ?_
    rw [List.forall_mem_map]
    exact fun p member => (members p member).notMem (by decide) (by decide) (by decide)
  -- whatever stands behind the parameters does not matter
  obtain ⟨back, header⟩ : ∃ back, (Item.function name params result code).header =
      "fn " ++ name ++ "(" ++ ", ".intercalate (params.map Member.text) ++ ")" ++ back := ⟨_, rfl⟩
  refine ⟨name.toList ++ '(' :: ((", ".intercalate (params.map Member.text)).toList ++
    ')' :: back.toList), ?_, ?_⟩
  · rw [header]
    simp
  · rw [readHeader?, cut_append (named.notMem (by decide))]
    simp only [cut_append closed, readParams_text members, String.ofList_toList]

/-! ## Functions -/

/-- What stands behind the indentation of a line. -/
def unindent? : List Char → Option (List Char)
  | ' ' :: ' ' :: ' ' :: ' ' :: line => some line
  | _ => none

/-- The indented lines at the beginning, without their indentation. -/
def indented : List (List Char) → List (List Char)
  | [] => []
  | line :: rest =>
    match unindent? line with
    | some text => text :: indented rest
    | none => []

/-- A function, from what follows `fn` in its header and from the lines of its code. -/
def readFunction? (header : List Char) (code : List (List Char)) : Option Function := do
  let (name, params) ← readHeader? header
  let code ← code.mapM fun line => Instruction.ofText? (String.ofList line)
  pure ⟨name, params, code⟩

/-- The functions on the lines of a listing. -/
def readLines? : List (List Char) → Option (List Function)
  | [] => some []
  | ('f' :: 'n' :: ' ' :: header) :: rest => do
    let f ← readFunction? header (indented rest)
    let more ← readLines? rest
    pure (f :: more)
  | _ :: rest => readLines? rest

/-- The functions in the text of a listing. -/
def readFunctions? (text : String) : Option (List Function) :=
  readLines? (text.toList.splitOn '\n')

/-- A line as it is indented in a listing. -/
def indent (line : String) : List Char := ("    " ++ line).toList

theorem indent_eq (line : String) : indent line = ' ' :: ' ' :: ' ' :: ' ' :: line.toList := by
  simp [indent]

/-- Indented lines are taken up to the first empty one. -/
theorem indented_lines (lines : List String) (rest : List (List Char)) :
    indented (lines.map indent ++ [] :: rest) = lines.map String.toList := by
  induction lines with
  | nil => rfl
  | cons line more ih =>
      rw [List.map_cons, List.cons_append, indent_eq, indented, unindent?, ih, List.map_cons]

/-- No function begins on an indented line. -/
theorem readLines?_indented (lines : List String) (rest : List (List Char)) :
    readLines? (lines.map indent ++ rest) = readLines? rest := by
  induction lines with
  | nil => rfl
  | cons line more ih =>
      rw [List.map_cons, List.cons_append, indent_eq]
      exact ih

/-- A function is read back from its lines. -/
theorem readFunction?_function {name : String} {params : List Member} (result : Option String)
    {code : List Instruction} {header : List Char} (plain : ∀ i ∈ code, Plain i)
    (read : readHeader? header = some (name, params.map (·.name))) :
    readFunction? header ((Item.function name params result code).lines.map String.toList) =
      some ⟨name, params.map (·.name), code⟩ := by
  have instructions : ((Item.function name params result code).lines.map String.toList).mapM
      (fun line => Instruction.ofText? (String.ofList line)) = some code := by
    rw [Item.lines, List.map_map, List.mapM_map]
    refine (Module.mapM_eq_some_map (g := id) fun i member => ?_).trans (by rw [List.map_id])
    rw [Function.comp_apply, Function.comp_apply, String.ofList_toList]
    exact Instruction.ofText?_text (plain i member)
  rw [readFunction?, read, instructions]
  rfl

/-- The lines of an item, between an empty line before it and one behind it, give the function that the
item is, if it is one. -/
theorem readLines?_item {item : Item} (clear : item.Clear) (rest : List (List Char)) :
    readLines? ([] :: item.header.toList :: (item.lines.map indent ++ [] :: rest)) =
      (readLines? ([] :: rest)).map (item.function?.toList ++ ·) := by
  cases item with
  | cls name fields =>
      have header : (Item.cls name fields).header.toList =
          'c' :: 'l' :: 'a' :: 's' :: 's' :: ' ' :: name.toList := by simp [Item.header]
      rw [header]
      refine (readLines?_indented _ _).trans ?_
      exact (Option.map_id' (x := readLines? ([] :: rest))).symm
  | function name params result code =>
      obtain ⟨text, header, read⟩ := readHeader?_header clear
      have function := readFunction?_function result clear.2.2.2 read
      rw [header]
      show (readFunction? text (indented _) >>= fun f =>
        readLines? _ >>= fun more => pure (f :: more)) = _
      rw [indented_lines, readLines?_indented, function]
      cases readLines? ([] :: rest) <;> rfl

/-- The lines of a listing, with the empty piece behind the last line feed. -/
theorem readLines?_items {items : List Item} (clear : ∀ item ∈ items, item.Clear) :
    readLines? ((items.flatMap fun item => blockLines item.header item.lines).map String.toList ++
      [[]]) = some (items.filterMap Item.function?) := by
  induction items with
  | nil => rfl
  | cons item later ih =>
      rw [List.forall_mem_cons] at clear
      -- what comes behind an item begins with an empty line, the next item or the end
      obtain ⟨rest, next⟩ : ∃ rest, (later.flatMap fun item =>
          blockLines item.header item.lines).map String.toList ++ [[]] = [] :: rest := by
        cases later with
        | nil => exact ⟨[], rfl⟩
        | cons item more => exact ⟨_, rfl⟩
      have behind := ih clear.2
      rw [next] at behind
      have block : (blockLines item.header item.lines).map String.toList =
          [] :: item.header.toList :: item.lines.map indent := by
        simp [blockLines, indent, Function.comp_def]
      rw [List.flatMap_cons, List.map_append, List.append_assoc, next, block]
      refine (readLines?_item clear.1 rest).trans ?_
      rw [behind, Option.map_some, List.filterMap_cons]
      cases item.function? <;> rfl

/-- The functions of a listing are read back from its text. -/
theorem readFunctions?_render {l : Listing} (unit : OneLine l.unit)
    (clear : ∀ item ∈ l.items, item.Clear) : readFunctions? l.render = some l.functions := by
  have whole : ∀ line ∈ unitLines l.unit (l.items.map fun i => (i.header, i.lines)), OneLine line := by
    rw [unitLines, List.forall_mem_cons, List.flatMap_map]
    refine ⟨Text.oneLine_append_iff.mpr ⟨by decide, unit⟩, fun line member => ?_⟩
    obtain ⟨item, among, inside⟩ := List.mem_flatMap.mp member
    have flush := (clear item among).flush
    rw [List.forall_mem_cons] at flush
    rw [blockLines, List.mem_cons, List.mem_cons, List.mem_map] at inside
    rcases inside with rfl | rfl | ⟨line, listed, rfl⟩
    · decide
    · exact flush.1.oneLine
    · exact Text.oneLine_append_iff.mpr ⟨by decide, (flush.2 line listed).oneLine⟩
  have first : ("; unit " ++ l.unit).toList =
      ';' :: ' ' :: 'u' :: 'n' :: 'i' :: 't' :: ' ' :: l.unit.toList := by simp
  rw [readFunctions?, render_eq, Layout.toList_ofLines, ← List.flatMap_map String.toList (· ++ ['\n']),
    Layout.splitOn_flatMap (by rwa [List.forall_mem_map]), unitLines, List.map_cons, List.flatMap_map,
    first]
  exact readLines?_items clear

/-! ## Accepted units -/

theorem generate_of_listing {m : Module} {D : Descriptor.Table} {listing : Listing}
    (listed : ofModule m D = .ok listing) :
    Artifact.generate .native m D = .ok (.listing listing.unit listing.render) := by
  rw [Artifact.generate, listed]
  rfl

/-- The text of a unit that the host alone accepts holds functions that compute what those of the
lowered module compute: they can be read from the text, and the machine runs what was read. -/
theorem native_listing_reads {draft : Source.Draft} {unit : String} {tree : Tree}
    {analysis : Analysis} (assembled : draft.assemble unit = .ok tree)
    (accepted : (analyze tree Registry.host .empty).outcome = .ok (.accepted analysis))
    (named : OneLine unit) :
    ∃ plan built m text read functions, Lowering.Plan.build .native Registry.host = .ok plan ∧
      Module.ofTree tree analysis.bindings analysis.descriptors = .ok built ∧
      plan.run built analysis.descriptors = (.ok (), m) ∧
      Artifact.generate .native m analysis.descriptors = .ok (.listing unit text) ∧
      readFunctions? text = some read ∧ m.functions = .ok functions ∧
      List.Forall₂ (Computes m analysis.descriptors) functions read := by
  have numbers := Source.assemble_numbers assembled
  obtain ⟨silent, rfl⟩ := (Analysis.accepted_iff numbers).mp accepted
  obtain ⟨built, constructed, sound⟩ := Module.ofTree_sound numbers silent
  obtain ⟨plan, m, planned, ran, soundly⟩ := Lowering.native_run sound
  obtain ⟨listing, functions, listed, among, computes⟩ := sound_computes soundly
  obtain ⟨built', m', items, constructed', ran', lowered, -, each⟩ := lowered_unit assembled silent
  -- one module is built and lowered, so what is known of its functions and of its text is known of both
  obtain rfl := Except.ok.inj (constructed'.symm.trans constructed)
  obtain rfl := Except.ok.inj ((Lowering.build_host .native).symm.trans planned)
  obtain rfl := (Prod.mk.inj (ran'.symm.trans ran)).2
  have made := lowered.listing_eq
  rw [Module.Outline.outline_number] at made
  obtain rfl := Except.ok.inj (made.symm.trans listed)
  refine ⟨_, built', m', _, _, functions, planned, constructed, ran, generate_of_listing listed,
    readFunctions?_render named fun item member => ?_, among, computes⟩
  obtain ⟨o, inside, rfl⟩ := List.mem_map.mp (by simpa [listingOf] using member)
  obtain ⟨isItem, shaped, legible⟩ := each o inside
  exact clear_listing shaped isItem legible

end Listing

end StagedCompiler
