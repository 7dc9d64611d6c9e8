import Mathlib.Logic.Basic
import StagedCompiler.Source.Assembly

/-!
# A unit is rejected for its first bad name

* `IsIdentifier` and `BadUnitName` say which names are good, character by character.
* `Draft.uses` lists the names that a draft uses in document order, each with the path of the construct
  that uses it.
* `Checks` relates such a list to a computation that fails at its first bad name, and every marking
  function is one (`Item.mark_checks`), so no construct at any depth is passed over.
* `ofDraft_stops_at_first` puts the name of the unit in front of them.
-/

namespace StagedCompiler.Source

/-! ## Good names -/

/-- An ASCII letter. -/
def IsLetter (c : Char) : Prop := 'a' ≤ c ∧ c ≤ 'z' ∨ 'A' ≤ c ∧ c ≤ 'Z'

/-- An ASCII digit. -/
def IsDigit (c : Char) : Prop := '0' ≤ c ∧ c ≤ '9'

/-- A letter or an underscore, followed by letters, digits and underscores. -/
def IsIdentifier (name : String) : Prop :=
  ∃ c rest, name.toList = c :: rest ∧ (IsLetter c ∨ c = '_') ∧
    ∀ d ∈ rest, IsLetter d ∨ IsDigit d ∨ d = '_'

/-- What no unit can be called: nothing but blanks, a text with a separator of paths, or one with two
dots side by side. -/
inductive BadUnitName (name : String) : Prop
  | blank : (∀ c ∈ name.toList, Text.isBlank c = true) → BadUnitName name
  | separator : '/' ∈ name.toList ∨ '\\' ∈ name.toList → BadUnitName name
  | dots : ['.', '.'] <:+: name.toList → BadUnitName name

theorem isAlphaAscii_iff {c : Char} : Text.isAlphaAscii c = true ↔ IsLetter c := by
  simp [Text.isAlphaAscii, Text.isLowerAscii, Text.isUpperAscii, IsLetter]

theorem isAlnumAscii_iff {c : Char} : Text.isAlnumAscii c = true ↔ IsLetter c ∨ IsDigit c := by
  simp [Text.isAlnumAscii, isAlphaAscii_iff, Text.isDigitAscii, IsDigit]

/-- A name has no flaw exactly if it is an identifier: a letter or an underscore, and then letters,
digits and underscores. -/
theorem identifierFlaw?_eq_none_iff {name : String} :
    identifierFlaw? name = none ↔ IsIdentifier name := by
  unfold identifierFlaw? IsIdentifier
  cases name.toList with
  | nil => simp
  | cons c rest =>
      have begins : (Text.isAlphaAscii c || c == '_') = true ↔ IsLetter c ∨ c = '_' := by
        simp [isAlphaAscii_iff]
      have goesOn : (rest.all fun d => Text.isAlnumAscii d || d == '_') = true ↔
          ∀ d ∈ rest, IsLetter d ∨ IsDigit d ∨ d = '_' := by
        simp [isAlnumAscii_iff, or_assoc]
      dsimp only
      split
      · rename_i bad
        rw [Bool.not_eq_true', ← Bool.not_eq_true, begins] at bad
        simp [bad]
      · rename_i good
        rw [Bool.not_eq_true', Bool.not_eq_false, begins] at good
        split
        · rename_i all
          exact iff_of_true rfl ⟨c, rest, rfl, good, goesOn.mp all⟩
        · rename_i none
          rw [goesOn] at none
          refine iff_of_false nofun fun given => ?_
          obtain ⟨_, _, same, _, all⟩ := given
          obtain ⟨rfl, rfl⟩ := List.cons.inj same
          exact none all

/-- The search finds two dots in a row exactly if there are some. -/
theorem hasDoubleDot_iff {cs : List Char} : hasDoubleDot cs = true ↔ ['.', '.'] <:+: cs := by
  induction cs with
  | nil => simp [hasDoubleDot]
  | cons c rest ih =>
      rw [List.infix_cons_iff, ← ih]
      cases rest with
      | nil => simp [hasDoubleDot]
      | cons d rest =>
          by_cases both : c = '.' ∧ d = '.'
          · obtain ⟨rfl, rfl⟩ := both
            simp [hasDoubleDot]
          · -- The two dots, if there are any, lie in the rest.
            have apart : ¬ ['.', '.'] <+: c :: d :: rest := by
              simpa [List.cons_prefix_cons, eq_comm] using both
            have skips : hasDoubleDot (c :: d :: rest) = hasDoubleDot (d :: rest) := by
              rw [hasDoubleDot.eq_2]
              rintro _ rfl same
              exact both ⟨rfl, (List.cons.inj same).1⟩
            simp [skips, apart]

/-- A unit name has no flaw exactly if it is none of the bad ones. -/
theorem unitNameFlaw?_eq_none_iff {name : String} :
    unitNameFlaw? name = none ↔ ¬ BadUnitName name := by
  have blank : Text.allBlank name = true ↔ ∀ c ∈ name.toList, Text.isBlank c = true := by
    rw [Text.allBlank, List.all_eq_true]
  have separator : (name.toList.any fun c => c == '/' || c == '\\') = true ↔
      '/' ∈ name.toList ∨ '\\' ∈ name.toList := by
    simp [and_or_left, exists_or]
  unfold unitNameFlaw?
  split
  · rename_i flawed
    exact iff_of_false nofun (not_not_intro (.blank (blank.mp flawed)))
  · rename_i filled
    split
    · rename_i flawed
      exact iff_of_false nofun (not_not_intro (.separator (separator.mp flawed)))
    · rename_i whole
      split
      · rename_i flawed
        exact iff_of_false nofun (not_not_intro (.dots (hasDoubleDot_iff.mp flawed)))
      · rename_i spaced
        refine iff_of_true rfl fun bad => ?_
        cases bad with
        | blank all => exact filled (blank.mpr all)
        | separator found => exact whole (separator.mpr found)
        | dots found => exact spaced (hasDoubleDot_iff.mpr found)

/-! ## Names in document order -/

/-- A name, and the path of the construct that uses it. -/
structure NameUse : Type where
  path : String
  name : String
  deriving DecidableEq, Repr

/-- The uses in the members of a list. -/
def usesAll {α : Type} (uses : String → α → List NameUse) (path : String) (index : Nat)
    (as : List α) : List NameUse :=
  (as.zipIdx index).flatMap fun (a, i) => uses (indexed path i) a

/-- The name of a type. -/
def TypeRef.uses (path : String) (t : TypeRef Unit) : List NameUse := [⟨path, t.name⟩]

/-- A name and then its type. -/
def Typed.uses (path : String) (t : Typed Unit) : List NameUse :=
  ⟨path, t.name⟩ :: t.type.uses (part path "type")

mutual

/-- The names in an expression: a callee comes before its arguments. -/
def Expr.uses (path : String) : Expr Unit → List NameUse
  | .int _ _ | .bool _ _ | .str _ _ => []
  | .ref _ name => [⟨path, name⟩]
  | .call _ callee args => ⟨path, callee⟩ :: argUses (part path "args") 0 args
  | .binary _ _ lhs rhs => lhs.uses (part path "lhs") ++ rhs.uses (part path "rhs")

/-- The names in arguments. -/
def argUses (path : String) (index : Nat) : List (Expr Unit) → List NameUse
  | [] => []
  | e :: rest => e.uses (indexed path index) ++ argUses path (index + 1) rest

end

/-- The names in a statement: that of a variable comes before its type and its value. -/
def Stmt.uses (path : String) : Stmt Unit → List NameUse
  | .letBind _ name type value =>
    ⟨path, name⟩ :: (type.toList.flatMap (TypeRef.uses (part path "type")) ++
      value.uses (part path "value"))
  | .ret _ value => value.toList.flatMap (Expr.uses (part path "value"))
  | .eval _ value => value.uses (part path "value")

/-- The names in an item: its own, its type parameters, its parameters, its result and its body. -/
def Item.uses (path : String) : Item Unit → List NameUse
  | .function _ name typeParams params returns body =>
    ⟨path, name⟩ :: (typeParams.map (⟨path, ·⟩) ++
      (usesAll Typed.uses (part path "params") 0 params ++
        (returns.toList.flatMap (TypeRef.uses (part path "returns")) ++
          usesAll Stmt.uses (part path "body") 0 body)))
  | .cls _ name fields => ⟨path, name⟩ :: usesAll Typed.uses (part path "fields") 0 fields

/-- The names in a draft. -/
def Draft.uses (d : Draft) : List NameUse := usesAll Item.uses "items" 0 d.items

/-- The first use of a name that is no identifier. -/
def FirstBad (uses : List NameUse) (u : NameUse) : Prop :=
  ∃ before after, uses = before ++ u :: after ∧ ¬ IsIdentifier u.name ∧
    ∀ v ∈ before, IsIdentifier v.name

/-! ## Marking stops at the first bad name -/

/-- The complaint about a use. -/
def NameUse.complaint? (u : NameUse) : Option BadName :=
  (identifierFlaw? u.name).map (⟨u.name, u.path, ·⟩)

theorem NameUse.complaint?_eq_none_iff {u : NameUse} :
    u.complaint? = none ↔ IsIdentifier u.name := by
  rw [NameUse.complaint?, Option.map_eq_none_iff, identifierFlaw?_eq_none_iff]

/-- A complaint says which name at which path has which flaw. -/
theorem NameUse.complaint?_eq_some_iff {u : NameUse} {bad : BadName} :
    u.complaint? = some bad ↔
      u = ⟨bad.path, bad.name⟩ ∧ identifierFlaw? u.name = some bad.flaw := by
  rcases u with ⟨path, name⟩
  rcases bad with ⟨name', path', flaw⟩
  rw [NameUse.complaint?, Option.map_eq_some_iff]
  constructor
  · rintro ⟨_, found, same⟩
    obtain ⟨rfl, rfl, rfl⟩ := BadName.mk.inj same
    exact ⟨rfl, found⟩
  · rintro ⟨same, found⟩
    obtain ⟨rfl, rfl⟩ := NameUse.mk.inj same
    exact ⟨flaw, found, rfl⟩

/-- The complaint about the first bad name of a list. -/
def firstComplaint? (uses : List NameUse) : Option BadName := uses.findSome? NameUse.complaint?

theorem firstComplaint?_append (us vs : List NameUse) :
    firstComplaint? (us ++ vs) = (firstComplaint? us).or (firstComplaint? vs) :=
  List.findSome?_append

theorem firstComplaint?_eq_none_iff {uses : List NameUse} :
    firstComplaint? uses = none ↔ ∀ u ∈ uses, IsIdentifier u.name := by
  simp only [firstComplaint?, List.findSome?_eq_none_iff, NameUse.complaint?_eq_none_iff]

/-- The first complaint is about the first name that is no identifier. -/
theorem firstComplaint?_eq_some_iff {uses : List NameUse} {bad : BadName} :
    firstComplaint? uses = some bad ↔
      FirstBad uses ⟨bad.path, bad.name⟩ ∧ identifierFlaw? bad.name = some bad.flaw := by
  rw [firstComplaint?, List.findSome?_eq_some_iff]
  constructor
  · rintro ⟨before, u, after, rfl, complaint, fine⟩
    obtain ⟨rfl, flaw⟩ := NameUse.complaint?_eq_some_iff.mp complaint
    refine ⟨⟨before, after, rfl, fun good => ?_, fun v member => ?_⟩, flaw⟩
    · rw [identifierFlaw?_eq_none_iff.mpr good] at flaw
      cases flaw
    · exact NameUse.complaint?_eq_none_iff.mp (fine v member)
  · rintro ⟨⟨before, after, rfl, _, fine⟩, flaw⟩
    exact ⟨before, _, after, rfl, NameUse.complaint?_eq_some_iff.mpr ⟨rfl, flaw⟩,
      fun v member => NameUse.complaint?_eq_none_iff.mpr (fine v member)⟩

/-- A computation that fails at the first bad name of a list, and only there. -/
inductive Checks {α : Type} (uses : List NameUse) : Except BadName α → Prop
  | ok {a : α} : firstComplaint? uses = none → Checks uses (.ok a)
  | error {bad : BadName} : firstComplaint? uses = some bad → Checks uses (.error bad)

namespace Checks

variable {α β : Type} {us vs : List NameUse}

theorem done (a : α) : Checks [] (.ok a) := .ok rfl

/-- Steps in sequence check the names of both, and the first bad one ends them. -/
theorem bind {first : Except BadName α} {f : α → Except BadName β} (checks : Checks us first)
    (next : ∀ a, Checks vs (f a)) : Checks (us ++ vs) (first >>= f) := by
  cases checks with
  | error found => exact .error (by rw [firstComplaint?_append, found, Option.some_or])
  | @ok a fine =>
      -- Only now does the second part run, and its complaint is the first of both.
      have whole : firstComplaint? (us ++ vs) = firstComplaint? vs := by
        rw [firstComplaint?_append, fine, Option.none_or]
      have second := next a
      show Checks (us ++ vs) (f a)
      generalize f a = result at second
      cases second with
      | ok fine' => exact .ok (whole.trans fine')
      | error found => exact .error (whole.trans found)

/-- Nothing is checked behind the last part. -/
theorem finish {first : Except BadName α} {f : α → Except BadName β} (checks : Checks us first)
    (next : ∀ a, Checks [] (f a)) : Checks us (first >>= f) := by
  rw [← List.append_nil us]
  exact checks.bind next

theorem name (path name : String) : Checks [⟨path, name⟩] (checkName path name) := by
  have single : firstComplaint? [⟨path, name⟩] = (identifierFlaw? name).map (⟨name, path, ·⟩) := by
    rw [firstComplaint?, List.findSome?_singleton]
    rfl
  unfold checkName
  cases flaw : identifierFlaw? name with
  | none => exact .ok (by rw [single, flaw, Option.map_none])
  | some flaw' => exact .error (by rw [single, flaw, Option.map_some])

theorem namesOf (path : String) (names : List String) :
    Checks (names.map (⟨path, ·⟩)) (names.forM (checkName path)) := by
  induction names with
  | nil => exact .done ()
  | cons n rest ih => exact (name path n).bind fun _ => ih

end Checks

section Parts

variable {α β : Type} {mark : String → Nat → α → Except BadName (β × Nat)}
  {uses : String → α → List NameUse}

/-- Several constructs have their names checked in order. -/
theorem markAll_checks (each : ∀ path next a, Checks (uses path a) (mark path next a))
    (path : String) (index next : Nat) (as : List α) :
    Checks (usesAll uses path index as) (markAll mark path index next as) := by
  induction as generalizing index next with
  | nil => exact .done _
  | cons a rest ih =>
      rw [usesAll, List.zipIdx_cons, List.flatMap_cons]
      exact (each _ next a).bind fun marked => (ih (index + 1) marked.2).finish fun _ => .done _

theorem markOption_checks (each : ∀ path next a, Checks (uses path a) (mark path next a))
    (path : String) (next : Nat) (o : Option α) :
    Checks (o.toList.flatMap (uses path)) (markOption mark path next o) := by
  cases o with
  | none => exact .done _
  | some a =>
      rw [Option.toList_some, List.flatMap_singleton]
      exact (each path next a).finish fun _ => .done _

end Parts

theorem TypeRef.mark_checks (path : String) (next : Nat) (t : TypeRef Unit) :
    Checks (t.uses path) (t.mark path next) :=
  (Checks.name path t.name).finish fun _ => .done _

theorem Typed.mark_checks (path : String) (next : Nat) (t : Typed Unit) :
    Checks (t.uses path) (t.mark path next) :=
  (Checks.name path t.name).bind fun _ => (t.type.mark_checks _ _).finish fun _ => .done _

mutual

/-- The names of an expression are checked in document order, by recursion on it. -/
theorem Expr.mark_checks (path : String) (next : Nat) :
    ∀ e : Expr Unit, Checks (e.uses path) (e.mark path next)
  | .int _ n => by
      rw [Expr.uses, Expr.mark]
      exact .done _
  | .bool _ b => by
      rw [Expr.uses, Expr.mark]
      exact .done _
  | .str _ s => by
      rw [Expr.uses, Expr.mark]
      exact .done _
  | .ref _ name => by
      rw [Expr.uses, Expr.mark]
      exact (Checks.name path name).finish fun _ => .done _
  | .call _ callee args => by
      rw [Expr.uses, Expr.mark]
      exact (Checks.name path callee).bind fun _ =>
        (markArgs_checks _ _ _ args).finish fun _ => .done _
  | .binary _ op lhs rhs => by
      rw [Expr.uses, Expr.mark]
      exact (lhs.mark_checks _ _).bind fun left =>
        (rhs.mark_checks _ left.2).finish fun _ => .done _

theorem markArgs_checks (path : String) (index next : Nat) :
    ∀ es : List (Expr Unit), Checks (argUses path index es) (markArgs path index next es)
  | [] => by
      rw [argUses, markArgs]
      exact .done _
  | e :: rest => by
      rw [argUses, markArgs]
      exact (e.mark_checks _ _).bind fun first =>
        (markArgs_checks _ _ first.2 rest).finish fun _ => .done _

end

/-- The names of a statement are checked in document order. -/
theorem Stmt.mark_checks (path : String) (next : Nat) (s : Stmt Unit) :
    Checks (s.uses path) (s.mark path next) := by
  cases s with
  | letBind site name type value =>
      exact (Checks.name path name).bind fun _ =>
        (markOption_checks TypeRef.mark_checks _ _ type).bind fun typed =>
          (value.mark_checks _ typed.2).finish fun _ => .done _
  | ret site value =>
      exact (markOption_checks Expr.mark_checks _ _ value).finish fun _ => .done _
  | eval site value =>
      exact (value.mark_checks _ _).finish fun _ => .done _

/-- The names of an item are checked in document order: its own, then those of its parts. -/
theorem Item.mark_checks (path : String) (next : Nat) (i : Item Unit) :
    Checks (i.uses path) (i.mark path next) := by
  cases i with
  | function site name typeParams params returns body =>
      exact (Checks.name path name).bind fun _ =>
        (Checks.namesOf path typeParams).bind fun _ =>
          (markAll_checks Typed.mark_checks _ _ _ params).bind fun members =>
            (markOption_checks TypeRef.mark_checks _ members.2 returns).bind fun returned =>
              (markAll_checks Stmt.mark_checks _ _ returned.2 body).finish fun _ => .done _
  | cls site name fields =>
      exact (Checks.name path name).bind fun _ =>
        (markAll_checks Typed.mark_checks _ _ _ fields).finish fun _ => .done _

/-- The names of a draft are checked in document order. -/
theorem Draft.assemble_checks (d : Draft) (unit : String) : Checks d.uses (d.assemble unit) :=
  (markAll_checks Item.mark_checks "items" 0 0 d.items).finish fun _ => .done _

/-! ## The verdict on a draft -/

theorem exists_firstComplaint? {uses : List NameUse} {u : NameUse} (first : FirstBad uses u) :
    ∃ flaw, firstComplaint? uses = some ⟨u.name, u.path, flaw⟩ := by
  obtain ⟨_, _, _, bad, _⟩ := id first
  cases found : identifierFlaw? u.name with
  | none => exact absurd (identifierFlaw?_eq_none_iff.mp found) bad
  | some flaw => exact ⟨flaw, firstComplaint?_eq_some_iff.mpr ⟨first, found⟩⟩

/-- What becomes of a draft: the name of its unit is looked at first, and then the names in it. -/
inductive Verdict (source unit : String) (uses : List NameUse) : Except Fault Tree → Prop
  | unitName {flaw : UnitNameFlaw} : BadUnitName unit →
    Verdict source unit uses (.error (invalidUnitName source unit flaw))
  | name {bad : BadName} : ¬ BadUnitName unit → firstComplaint? uses = some bad →
    Verdict source unit uses (.error (invalidIdentifier source bad))
  | tree {t : Tree} : ¬ BadUnitName unit → firstComplaint? uses = none →
    Verdict source unit uses (.ok t)

/-- A draft is refused for its unit name, or for its first bad name, or it is assembled. -/
theorem ofDraft_verdict (source defaultUnit : String) (d : Draft) :
    Verdict source (d.unit.getD defaultUnit) d.uses (Tree.ofDraft source defaultUnit d) := by
  unfold Tree.ofDraft
  dsimp only
  cases flaw : unitNameFlaw? (d.unit.getD defaultUnit) with
  | some flaw' =>
      refine .unitName (not_not.mp fun good => ?_)
      rw [unitNameFlaw?_eq_none_iff.mpr good] at flaw
      cases flaw
  | none =>
      have good := unitNameFlaw?_eq_none_iff.mp flaw
      have checks := d.assemble_checks (d.unit.getD defaultUnit)
      generalize d.assemble (d.unit.getD defaultUnit) = result at checks
      cases checks with
      | ok fine => exact .tree good fine
      | error found => exact .name good found

/-- A draft has no tree exactly if the name of its unit is bad or it uses a name that is no identifier.
The name of the unit is looked at first, and then the first bad name in document order is the one that
is reported. -/
theorem ofDraft_stops_at_first (source defaultUnit : String) (d : Draft) :
    (∀ name, (∃ flaw span,
        Tree.ofDraft source defaultUnit d = .error (.invalidUnitName name flaw span)) ↔
      name = d.unit.getD defaultUnit ∧ BadUnitName name) ∧
    ((∃ bad span, Tree.ofDraft source defaultUnit d = .error (.invalidIdentifier bad span)) ↔
      ¬ BadUnitName (d.unit.getD defaultUnit) ∧ ∃ u ∈ d.uses, ¬ IsIdentifier u.name) ∧
    (∀ u : NameUse, (∃ flaw span, Tree.ofDraft source defaultUnit d =
        .error (.invalidIdentifier ⟨u.name, u.path, flaw⟩ span)) ↔
      ¬ BadUnitName (d.unit.getD defaultUnit) ∧ FirstBad d.uses u) ∧
    ((∃ tree, Tree.ofDraft source defaultUnit d = .ok tree) ↔
      ¬ BadUnitName (d.unit.getD defaultUnit) ∧ ∀ u ∈ d.uses, IsIdentifier u.name) := by
  have someBad : (∃ u ∈ d.uses, ¬ IsIdentifier u.name) ↔ firstComplaint? d.uses ≠ none := by
    rw [ne_eq, firstComplaint?_eq_none_iff]
    simp only [not_forall, exists_prop]
  have verdict := ofDraft_verdict source defaultUnit d
  rw [someBad, ← firstComplaint?_eq_none_iff]
  generalize d.unit.getD defaultUnit = unit at verdict ⊢
  generalize Tree.ofDraft source defaultUnit d = result at verdict ⊢
  -- One of three things happens, and each of the four statements is decided by which one it is.
  cases verdict with
  | unitName bad =>
      refine ⟨fun name => ⟨?_, ?_⟩, iff_of_false nofun fun given => given.1 bad,
        fun u => iff_of_false nofun fun given => given.1 bad,
        iff_of_false nofun fun given => given.1 bad⟩
      · rintro ⟨flaw, span, same⟩
        cases same
        exact ⟨rfl, bad⟩
      · rintro ⟨rfl, _⟩
        exact ⟨_, _, rfl⟩
  | name good found =>
      refine ⟨fun name => iff_of_false nofun ?_, iff_of_true ⟨_, _, rfl⟩ ⟨good, ?_⟩,
        fun u => ⟨?_, ?_⟩, iff_of_false nofun ?_⟩
      · rintro ⟨rfl, bad⟩
        exact good bad
      · rw [found]
        nofun
      · rintro ⟨flaw, span, same⟩
        cases same
        exact ⟨good, (firstComplaint?_eq_some_iff.mp found).1⟩
      · rintro ⟨_, first⟩
        obtain ⟨flaw, found'⟩ := exists_firstComplaint? first
        obtain rfl := Option.some.inj (found.symm.trans found')
        exact ⟨flaw, _, rfl⟩
      · rintro ⟨_, fine⟩
        exact nomatch found.symm.trans fine
  | tree good fine =>
      refine ⟨fun name => iff_of_false nofun ?_, iff_of_false nofun fun given => given.2 fine,
        fun u => iff_of_false nofun ?_, iff_of_true ⟨_, rfl⟩ ⟨good, fine⟩⟩
      · rintro ⟨rfl, bad⟩
        exact good bad
      · rintro ⟨_, first⟩
        obtain ⟨flaw, found⟩ := exists_firstComplaint? first
        exact nomatch found.symm.trans fine

end StagedCompiler.Source
