import CBindings.OrderedMap
import CBindings.Primitive
import CBindings.Text.Blank
import CBindings.Text.Quoted

/-! Compilation targets: widths of C types and the macros that exist before any header is read. -/

namespace CBindings

structure Target where
  name : String
  pointerWidth : Nat
  longWidth : Nat
  wcharWidth : Nat := 16
  wcharSigned : Bool := false
  charSigned : Bool := true
  predefined : OrderedMap String String

namespace Target

def exactTypedefs : List (String × Nat × Bool) :=
  [("int8_t", 8, true), ("int16_t", 16, true), ("int32_t", 32, true), ("int64_t", 64, true),
   ("uint8_t", 8, false), ("uint16_t", 16, false), ("uint32_t", 32, false), ("uint64_t", 64, false)]

def pointerSizedTypedefs : List (String × Bool) :=
  [("size_t", false), ("ssize_t", true), ("ptrdiff_t", true), ("intptr_t", true),
   ("uintptr_t", false)]

def wellKnown : List String :=
  exactTypedefs.map Prod.fst ++ pointerSizedTypedefs.map Prod.fst ++ ["wchar_t", "va_list"]

/-- Width and signedness of a canonical primitive type that is an integer. -/
def primitiveWidth (target : Target) (name : String) : Option (Nat × Bool) :=
  match Primitive.fixedWidths.lookup name with
  | some width => some width
  | none =>
    match name with
    | "char" => some (8, target.charSigned)
    | "long" => some (target.longWidth, true)
    | "unsigned long" => some (target.longWidth, false)
    | "__int3264" => some (target.pointerWidth, true)
    | "unsigned __int3264" => some (target.pointerWidth, false)
    | _ => none

def typedefWidth (target : Target) (name : String) : Option (Nat × Bool) :=
  match exactTypedefs.lookup name with
  | some width => some width
  | none =>
    match pointerSizedTypedefs.lookup name with
    | some signed => some (target.pointerWidth, signed)
    | none => if name = "wchar_t" then some (target.wcharWidth, target.wcharSigned) else none

def withMacros (target : Target) (extra : OrderedMap String String) : Target :=
  { target with predefined := target.predefined.update extra }

def windowsMacros : List (String × String) :=
  [("_MSC_VER", "1930"), ("_WIN32", "1"), ("_INTEGRAL_MAX_BITS", "64")]

def all : List Target :=
  [{ name := "x86-64", pointerWidth := 64, longWidth := 32,
     predefined := .ofList (windowsMacros ++
       [("_WIN64", "1"), ("_M_X64", "100"), ("_M_AMD64", "100"), ("_AMD64_", "1")]) },
   { name := "x86", pointerWidth := 32, longWidth := 32,
     predefined := .ofList (windowsMacros ++ [("_M_IX86", "600"), ("_X86_", "1")]) },
   { name := "aarch64", pointerWidth := 64, longWidth := 32,
     predefined := .ofList (windowsMacros ++
       [("_WIN64", "1"), ("_M_ARM64", "1"), ("_ARM64_", "1")]) },
   { name := "x86-64-sysv", pointerWidth := 64, longWidth := 64, wcharWidth := 32,
     wcharSigned := true,
     predefined := .ofList
       [("__x86_64__", "1"), ("__LP64__", "1"), ("__linux__", "1"), ("__STDC__", "1")] },
   { name := "i686-sysv", pointerWidth := 32, longWidth := 32, wcharWidth := 32,
     wcharSigned := true,
     predefined := .ofList
       [("__i386__", "1"), ("__ILP32__", "1"), ("__linux__", "1"), ("__STDC__", "1")] }]

def names : List String := all.map name

def defaultName : String := "x86-64"

def selector : String := "HEADERBIND_ARCH"

structure Unknown where
  name : String

def Unknown.message (unknown : Unknown) : String :=
  "Unknown architecture: " ++ Text.quoted unknown.name ++ ". Available: " ++ ", ".intercalate names

def find (name : String) : Except Unknown Target :=
  match all.find? (·.name = name) with
  | some target => .ok target
  | none => .error ⟨name⟩

/-- The named target or, without a name, the one the environment asks for. An unknown name in the
environment gives the default target and a warning. -/
def select (name? : Option String) (environment : String) : Except Unknown (Target × List String) :=
  match name? with
  | some name => (find name).map (·, [])
  | none =>
    let asked := String.ofList (Text.strip environment.toList)
    if asked.isEmpty then (find defaultName).map (·, [])
    else
      match find asked with
      | .ok target => .ok (target, [])
      | .error _ =>
        (find defaultName).map (·, [selector ++ "=" ++ Text.quoted asked ++
          " is not a known architecture, using " ++ defaultName])

end Target

end CBindings
