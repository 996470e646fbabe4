import Flowgraph.Imports.UseTree
import Flowgraph.Proofs.Call.Normalization

/-!
# The grammar of use trees

Use trees, the leaves they stand for, and the texts that spell them, with blanks around braces, commas
and double colons.
-/

namespace Flowgraph.Imports.UseTree

/-! ## Trees -/

/-- A piece of a path without blanks and without signs that end it, other than the word that leads to an
alias. -/
def IsToken (s : List Char) : Prop :=
  s ≠ [] ∧ (∀ c ∈ s, Text.isBlank c = false ∧ c ∉ ['{', '}', ',', ':']) ∧ s ≠ ['a', 's']

instance {s : List Char} : Decidable (IsToken s) :=
  have : Decidable (∀ c ∈ s, Text.isBlank c = false ∧ c ∉ ['{', '}', ',', ':']) := List.decidableBAll _ s
  inferInstanceAs (Decidable (_ ∧ _ ∧ _))

theorem isToken_of_isIdentifier {s : List Char} (hs : Call.isIdentifier s = true) (has : s ≠ ['a', 's']) :
    IsToken s := by
  refine ⟨Call.ne_nil_of_isIdentifier hs, fun c hc => ⟨?_, fun hsign => ?_⟩, has⟩
  · exact Call.isBlank_eq_false_of_isIdentifierPart (Call.isIdentifierPart_of_mem hs hc)
  · refine Call.not_mem_of_isIdentifier hs ?_ hc
    simp only [List.mem_cons, List.not_mem_nil, or_false] at hsign
    obtain rfl | rfl | rfl | rfl := hsign <;> decide

/-- A word of a path. -/
structure Word where
  text : String
  isToken : IsToken text.toList
  not_glob : '*' ∉ text.toList

/-- Every identifier is a word, but for `as`, which is none of the language. -/
def Word.ofIdentifier (text : String) (h : Call.isIdentifier text.toList = true) (has : text ≠ "as") :
    Word where
  text := text
  isToken := isToken_of_isIdentifier h fun heq => has (String.toList_inj.1 heq)
  not_glob := Call.not_mem_of_isIdentifier h (by decide)

/-- A word that names something of its own, which `self` does not. -/
structure Name extends Word where
  ne_self : text ≠ "self"

/-- A use tree. What it brings into scope stands behind `scope`. -/
inductive Tree where
  | path (scope : List Word) (last : Name) (newName : Option Name)
  /-- The path of the groups around it. -/
  | self (newName : Option Name)
  | glob (scope : List Word)
  | group (scope : List Word) (items : List Tree)

def texts (words : List Word) : List String := words.map (·.text)

mutual

/-- The leaves of a tree below the path `base`, in the order of the text. -/
def Tree.leaves (base : List Word) : Tree → List Leaf
  | .path scope last newName =>
    [⟨texts (base ++ scope ++ [last.toWord]), (newName.getD last).text⟩]
  | .self newName =>
    match base.getLast? with
    | none => []
    | some last => [⟨texts base, (newName.map (·.toWord)).getD last |>.text⟩]
  | .glob _ => []
  | .group scope items => Tree.allLeaves (base ++ scope) items

def Tree.allLeaves (base : List Word) : List Tree → List Leaf
  | [] => []
  | t :: ts => t.leaves base ++ Tree.allLeaves base ts

end

/-! ## Texts -/

def Blanks (s : List Char) : Prop := ∀ c ∈ s, Text.isBlank c = true

instance {s : List Char} : Decidable (Blanks s) := List.decidableBAll _ s

/-- A text of the words in front of a tree, each with a double colon behind it. -/
inductive SpellsScope : List Word → List Char → Prop
  | nil : SpellsScope [] []
  | cons {word scope w v s} : Blanks w → Blanks v → SpellsScope scope s →
      SpellsScope (word :: scope) (word.text.toList ++ w ++ ':' :: ':' :: (v ++ s))

/-- The text of an alias, if there is one. -/
def aliasText : Option Name → List Char
  | none => []
  | some n => [' ', 'a', 's', ' '] ++ n.text.toList

mutual

/-- `t` is spelled `s`, where no blanks stand around it. -/
inductive Tree.Spells : Tree → List Char → Prop
  | path {scope last newName s} : SpellsScope scope s →
      Spells (.path scope last newName) (s ++ last.text.toList ++ aliasText newName)
  | self {newName} : Spells (.self newName) (['s', 'e', 'l', 'f'] ++ aliasText newName)
  | glob {scope s} : SpellsScope scope s → Spells (.glob scope) (s ++ ['*'])
  | group {scope items s inside} : SpellsScope scope s → Tree.SpellsItems items inside →
      Spells (.group scope items) (s ++ '{' :: (inside ++ ['}']))

/-- The items of a group are spelled `s` between its braces. A comma stands behind each item, and may be
missing behind the last. -/
inductive Tree.SpellsItems : List Tree → List Char → Prop
  | nil {w} : Blanks w → SpellsItems [] w
  | last {t w s v} : Blanks w → Tree.Spells t s → Blanks v → SpellsItems [t] (w ++ s ++ v)
  | cons {t ts w s v rest} : Blanks w → Tree.Spells t s → Blanks v → SpellsItems ts rest →
      SpellsItems (t :: ts) (w ++ s ++ v ++ ',' :: rest)

end

/-! ## Printing -/

def printScope : List Word → List Char
  | [] => []
  | word :: scope => word.text.toList ++ ':' :: ':' :: printScope scope

mutual

/-- The text of a tree on one line. -/
def Tree.print : Tree → List Char
  | .path scope last newName => printScope scope ++ last.text.toList ++ aliasText newName
  | .self newName => ['s', 'e', 'l', 'f'] ++ aliasText newName
  | .glob scope => printScope scope ++ ['*']
  | .group scope items => printScope scope ++ '{' :: (Tree.printItems items ++ ['}'])

def Tree.printItems : List Tree → List Char
  | [] => []
  | [t] => t.print
  | t :: ts => t.print ++ ',' :: ' ' :: Tree.printItems ts

end

theorem blanks_nil : Blanks [] := fun _ hc => absurd hc List.not_mem_nil

theorem Blanks.append {s t : List Char} (hs : Blanks s) (ht : Blanks t) : Blanks (s ++ t) := by
  intro c hc
  exact (List.mem_append.1 hc).elim (hs c) (ht c)

theorem Tree.SpellsItems.blanks_append {ts : List Tree} {s u : List Char} (hu : Blanks u)
    (hs : Tree.SpellsItems ts s) : Tree.SpellsItems ts (u ++ s) := by
  cases hs with
  | nil hw => exact .nil (hu.append hw)
  | last hw ht hv => simpa using Tree.SpellsItems.last (hu.append hw) ht hv
  | cons hw ht hv hrest => simpa using Tree.SpellsItems.cons (hu.append hw) ht hv hrest

theorem spellsScope_printScope (scope : List Word) : SpellsScope scope (printScope scope) := by
  induction scope with
  | nil => exact .nil
  | cons word scope ih =>
    have hword : SpellsScope (word :: scope) _ := .cons blanks_nil blanks_nil ih
    simpa [printScope] using hword

mutual

theorem Tree.spells_print : (t : Tree) → t.Spells t.print
  | .path scope last newName => by
    rw [Tree.print]
    exact .path (spellsScope_printScope scope)
  | .self newName => by
    rw [Tree.print]
    exact .self
  | .glob scope => by
    rw [Tree.print]
    exact .glob (spellsScope_printScope scope)
  | .group scope items => by
    rw [Tree.print]
    exact .group (spellsScope_printScope scope) (Tree.spellsItems_printItems items)

theorem Tree.spellsItems_printItems : (ts : List Tree) → Tree.SpellsItems ts (Tree.printItems ts)
  | [] => by
    rw [Tree.printItems]
    exact .nil blanks_nil
  | [t] => by
    rw [Tree.printItems]
    simpa using Tree.SpellsItems.last blanks_nil t.spells_print blanks_nil
  | t :: t' :: ts => by
    rw [Tree.printItems]
    · have hrest := (Tree.spellsItems_printItems (t' :: ts)).blanks_append (u := [' ']) (by decide)
      simpa using Tree.SpellsItems.cons blanks_nil t.spells_print blanks_nil hrest
    · exact List.cons_ne_nil _ _

end

end Flowgraph.Imports.UseTree
