import TypedStack.Floating.Format

/-!
# Kinds of values

Every value has a kind: one of ten integer kinds, a floating-point format,
truth values or references. Kinds have a name in assembly text and a one-byte
tag in code.
-/

namespace TypedStack

/-- The integer kinds. The last two have the width of an address. -/
inductive IntegerKind where
  | u8
  | u16
  | u32
  | u64
  | i8
  | i16
  | i32
  | i64
  | usize
  | size
  deriving DecidableEq, Repr

namespace IntegerKind

/-- Width in bytes. -/
def width : IntegerKind → Nat
  | u8 | i8 => 1
  | u16 | i16 => 2
  | u32 | i32 => 4
  | u64 | i64 | usize | size => 8

/-- Width in bits. -/
def bits (kind : IntegerKind) : Nat :=
  8 * kind.width

/-- Whether the kind has negative values. -/
def isSigned : IntegerKind → Bool
  | i8 | i16 | i32 | i64 | size => true
  | u8 | u16 | u32 | u64 | usize => false

/-- The least value. -/
def min (kind : IntegerKind) : Int :=
  if kind.isSigned then -(Nat.pow 2 (kind.bits - 1) : Int) else 0

/-- The greatest value. -/
def max (kind : IntegerKind) : Int :=
  if kind.isSigned then (Nat.pow 2 (kind.bits - 1) : Int) - 1 else (Nat.pow 2 kind.bits : Int) - 1

/-- The name in assembly text. -/
def name : IntegerKind → String
  | u8 => "u8"
  | u16 => "u16"
  | u32 => "u32"
  | u64 => "u64"
  | i8 => "i8"
  | i16 => "i16"
  | i32 => "i32"
  | i64 => "i64"
  | usize => "usize_t"
  | size => "size_t"

end IntegerKind

/-- The name of a format in assembly text. -/
def FloatFormat.name : FloatFormat → String
  | binary16 => "f16"
  | binary32 => "f32"
  | binary64 => "f64"

/-- The kinds of values. -/
inductive Kind where
  | integer (kind : IntegerKind)
  | float (format : FloatFormat)
  | bool
  | ref
  deriving DecidableEq, Repr

namespace Kind

/-- All kinds in the order of their tags. -/
def all : List Kind :=
  [integer .u8, integer .u16, integer .u32, integer .u64,
    integer .i8, integer .i16, integer .i32, integer .i64,
    integer .usize, integer .size,
    float .binary16, float .binary32, float .binary64, bool, ref]

/-- The byte that stands for the kind in code. -/
def tag : Kind → UInt8
  | integer .u8 => 0
  | integer .u16 => 1
  | integer .u32 => 2
  | integer .u64 => 3
  | integer .i8 => 4
  | integer .i16 => 5
  | integer .i32 => 6
  | integer .i64 => 7
  | integer .usize => 8
  | integer .size => 9
  | float .binary16 => 10
  | float .binary32 => 11
  | float .binary64 => 12
  | bool => 13
  | ref => 14

/-- The kind with the given tag. -/
def ofTag? (tag : UInt8) : Option Kind :=
  all[tag.toNat]?

@[simp] theorem ofTag?_tag (kind : Kind) : ofTag? kind.tag = some kind := by
  rcases kind with (_ | _ | _ | _ | _ | _ | _ | _ | _ | _) | (_ | _ | _) | _ | _ <;> rfl

theorem ofTag?_eq_some {tag : UInt8} {kind : Kind} :
    ofTag? tag = some kind ↔ tag = kind.tag := by
  constructor
  · intro h
    have hplace : ∀ n (h : n < all.length), all[n].tag.toNat = n := by decide
    obtain ⟨hlt, rfl⟩ := List.getElem?_eq_some_iff.1 h
    exact UInt8.toNat_inj.1 (hplace _ hlt).symm
  · rintro rfl
    exact ofTag?_tag kind

/-- The name in assembly text. -/
def name : Kind → String
  | integer kind => kind.name
  | float format => format.name
  | bool => "bool"
  | ref => "ref"

/-- The kind with the given name. -/
def ofName? (name : String) : Option Kind :=
  all.find? (·.name == name)

@[simp] theorem ofName?_name (kind : Kind) : ofName? kind.name = some kind := by
  rcases kind with (_ | _ | _ | _ | _ | _ | _ | _ | _ | _) | (_ | _ | _) | _ | _ <;> decide

theorem ofName?_eq_some {name : String} {kind : Kind} :
    ofName? name = some kind ↔ name = kind.name := by
  constructor
  · intro h
    have hname : (kind.name == name) = true :=
      List.find?_some (p := fun kind : Kind => kind.name == name) h
    exact (beq_iff_eq.1 hname).symm
  · rintro rfl
    exact ofName?_name kind

/-- Width in bytes. A reference is an address of eight bytes. -/
def width : Kind → Nat
  | integer kind => kind.width
  | float format => format.width / 8
  | bool => 1
  | ref => 8

/-- Whether the kind is an integer kind. -/
def isInteger : Kind → Bool
  | integer _ => true
  | _ => false

/-- Whether the kind is an integer kind with negative values. -/
def isSigned : Kind → Bool
  | integer kind => kind.isSigned
  | _ => false

/-- Whether the kind is a floating-point kind. -/
def isFloat : Kind → Bool
  | float _ => true
  | _ => false

/-- Whether values of the kind are numbers or truth values. -/
def isNumeric (kind : Kind) : Bool :=
  kind != ref

/-- The least and the greatest value of an integer kind. -/
def integerRange? : Kind → Option (Int × Int)
  | integer kind => some (kind.min, kind.max)
  | _ => none

/-- What is said of a name that no kind has. -/
def unknownMessage (name : String) : String :=
  "unknown kind `" ++ name ++ "`"

end Kind

end TypedStack
