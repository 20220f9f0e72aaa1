/-!
# Modifier sets

The access flags of a method as a set of 16 bits.  Twelve of the bits have a
name (`Flag`); the other four are carried along unchanged by everything that
does not mention them.
-/

namespace Redeclare

/-- A set of access flags: any 16 bits, named or not. -/
structure Modifiers where
  bits : BitVec 16
  deriving DecidableEq

/-- The access flags with a name, in the order in which a set is written. -/
inductive Flag where
  | accPublic
  | accPrivate
  | accProtected
  | accStatic
  | accFinal
  | accSynchronized
  | accBridge
  | accVarargs
  | accNative
  | accAbstract
  | accStrict
  | accSynthetic
  deriving DecidableEq

namespace Flag

/-- Every flag, in the order in which a set is written. -/
def all : List Flag :=
  [accPublic, accPrivate, accProtected, accStatic, accFinal, accSynchronized, accBridge,
    accVarargs, accNative, accAbstract, accStrict, accSynthetic]

/-- The place of a flag's bit. -/
def position : Flag → Nat
  | accPublic => 0
  | accPrivate => 1
  | accProtected => 2
  | accStatic => 3
  | accFinal => 4
  | accSynchronized => 5
  | accBridge => 6
  | accVarargs => 7
  | accNative => 8
  | accAbstract => 10
  | accStrict => 11
  | accSynthetic => 12

/-- The set that holds this flag only. -/
def mask (f : Flag) : Modifiers :=
  ⟨BitVec.twoPow 16 f.position⟩

/-- The name of a flag in a written set. -/
def name : Flag → String
  | accPublic => "PUBLIC"
  | accPrivate => "PRIVATE"
  | accProtected => "PROTECTED"
  | accStatic => "STATIC"
  | accFinal => "FINAL"
  | accSynchronized => "SYNCHRONIZED"
  | accBridge => "BRIDGE"
  | accVarargs => "VARARGS"
  | accNative => "NATIVE"
  | accAbstract => "ABSTRACT"
  | accStrict => "STRICT"
  | accSynthetic => "SYNTHETIC"

/-- The flag of a name; names are exact. -/
def ofName? (name : String) : Option Flag :=
  all.find? (·.name == name)

/-- The flags that a method's source states by a keyword, in the order of a declaration.  A bridge,
a varargs method and a synthetic method have no keyword for it. -/
def keywords : List (Flag × String) :=
  [(accPublic, "public"), (accProtected, "protected"), (accPrivate, "private"),
    (accAbstract, "abstract"), (accStatic, "static"), (accFinal, "final"),
    (accSynchronized, "synchronized"), (accNative, "native"), (accStrict, "strictfp")]

/-- Every flag is listed. -/
theorem mem_all (f : Flag) : f ∈ all := by
  cases f <;> decide

end Flag

namespace Modifiers

/-- The set without any flag. -/
def empty : Modifiers := ⟨0⟩

instance : Inhabited Modifiers := ⟨empty⟩

/-- The set with the bits of a number; bits above the sixteenth are dropped. -/
def ofNat (n : Nat) : Modifiers := ⟨BitVec.ofNat 16 n⟩

/-- The bits as a number. -/
def toNat (m : Modifiers) : Nat := m.bits.toNat

/-- The bits of either set. -/
def union (m n : Modifiers) : Modifiers := ⟨m.bits ||| n.bits⟩

/-- The bits of both sets. -/
def inter (m n : Modifiers) : Modifiers := ⟨m.bits &&& n.bits⟩

/-- The bits of `m` that are not in `n`. -/
def diff (m n : Modifiers) : Modifiers := ⟨m.bits &&& ~~~n.bits⟩

/-- The bits of exactly one of the sets. -/
def symmDiff (m n : Modifiers) : Modifiers := ⟨m.bits ^^^ n.bits⟩

/-- The set of every named flag. -/
def named : Modifiers :=
  Flag.all.foldl (fun m f => m.union f.mask) empty

/-- The named flags of a set, without its other bits. -/
def truncate (m : Modifiers) : Modifiers := m.inter named

/-- The named flags that are not in the set. -/
def complement (m : Modifiers) : Modifiers := named.diff m

/-- Whether every bit of `n` is in `m`. -/
def contains (m n : Modifiers) : Bool := m.inter n == n

/-- Whether some bit is in both sets. -/
def intersects (m n : Modifiers) : Bool := m.inter n != empty

/-- Whether the set holds a flag. -/
def has (m : Modifiers) (f : Flag) : Bool := m.bits.getLsbD f.position

/-- The flags of the set that have a name, in the order in which a set is written. -/
def flags (m : Modifiers) : List Flag :=
  Flag.all.filter m.has

/-- The keywords of a declaration with these flags. -/
def keywords (m : Modifiers) : List String :=
  (Flag.keywords.filter fun p => m.has p.1).map (·.2)

/-- Sets are ordered as numbers. -/
def compare (m n : Modifiers) : Ordering :=
  Ord.compare m.toNat n.toNat

/-- Two sets with the same bits are one set. -/
theorem ext_bit {m n : Modifiers} (h : ∀ i, m.bits.getLsbD i = n.bits.getLsbD i) : m = n := by
  cases m with | mk a =>
  cases n with | mk b =>
  congr 1
  exact BitVec.eq_of_getLsbD_eq fun i _ => h i

@[simp] theorem getLsbD_union (m n : Modifiers) (i : Nat) :
    (m.union n).bits.getLsbD i = (m.bits.getLsbD i || n.bits.getLsbD i) := by
  simp [union]

@[simp] theorem getLsbD_inter (m n : Modifiers) (i : Nat) :
    (m.inter n).bits.getLsbD i = (m.bits.getLsbD i && n.bits.getLsbD i) := by
  simp [inter]

@[simp] theorem getLsbD_diff (m n : Modifiers) (i : Nat) :
    (m.diff n).bits.getLsbD i = (decide (i < 16) && (m.bits.getLsbD i && !n.bits.getLsbD i)) := by
  simp only [diff, BitVec.getLsbD_and, BitVec.getLsbD_not]
  cases m.bits.getLsbD i <;> simp

@[simp] theorem getLsbD_empty (i : Nat) : empty.bits.getLsbD i = false :=
  BitVec.getLsbD_zero

@[simp] theorem inter_self (m : Modifiers) : m.inter m = m := by
  rw [inter, BitVec.and_self]

@[simp] theorem union_empty (m : Modifiers) : m.union empty = m := by
  apply ext_bit
  intro i
  simp

@[simp] theorem empty_inter (m : Modifiers) : empty.inter m = empty := by
  simp [inter, empty]

end Modifiers

end Redeclare
