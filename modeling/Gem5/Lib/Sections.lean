import Mathlib

/-!
# Sections of named numbers

A section of a text file: one line for each name, with a number in decimal. A later line hides
an earlier one of the same name, and a number is only read back into a type that it fits.
-/

namespace Sections

/-- The lines of a section, in order. -/
abbrev Section := List (String × String)

/-- The numbers of an integer type. -/
structure Range where
  lo : Int
  hi : Int

def Range.Fits (ty : Range) (n : Int) : Prop := ty.lo ≤ n ∧ n ≤ ty.hi

instance (ty : Range) (n : Int) : Decidable (ty.Fits n) := inferInstanceAs (Decidable (_ ∧ _))

def unsigned (w : Nat) : Range := ⟨0, 2 ^ w - 1⟩

def signed (w : Nat) : Range := ⟨-2 ^ (w - 1), 2 ^ (w - 1) - 1⟩

def write (s : Section) (name : String) (n : Int) : Section := s ++ [(name, n.repr)]

def find (s : Section) (name : String) : Option String :=
  (s.reverse.find? fun line => line.1 == name).map Prod.snd

def parse (ty : Range) (text : String) : Option Int := text.toInt?.filter fun n => ty.Fits n

def read (ty : Range) (s : Section) (name : String) : Option Int := (find s name).bind (parse ty)

variable {ty : Range} {s : Section} {name other : String} {n : Int}

theorem unsigned_fits {w : Nat} (b : BitVec w) : (unsigned w).Fits b.toNat := by
  have lt : (b.toNat : Int) < 2 ^ w := by exact_mod_cast b.isLt
  exact ⟨Int.natCast_nonneg _, Int.le_sub_one_of_lt lt⟩

theorem signed_fits {w : Nat} (b : BitVec w) : (signed w).Fits b.toInt :=
  ⟨BitVec.le_toInt b, Int.le_sub_one_of_lt BitVec.toInt_lt⟩

theorem parse_repr (fits : ty.Fits n) : parse ty n.repr = some n := by
  rw [parse, Int.toInt?_repr, Option.filter_some, if_pos (decide_eq_true fits)]

theorem find_write_self : find (write s name n) name = some n.repr := by
  simp [find, write]

theorem find_write_of_ne (ne : other ≠ name) : find (write s name n) other = find s other := by
  simp [find, write, ne.symm]

theorem read_write_self (fits : ty.Fits n) : read ty (write s name n) name = some n := by
  rw [read, find_write_self, Option.bind_some, parse_repr fits]

theorem read_write_of_ne (ne : other ≠ name) :
    read ty (write s name n) other = read ty s other := by
  rw [read, find_write_of_ne ne, read]

end Sections
