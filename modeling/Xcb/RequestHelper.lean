import Xcb.Expression
import Xcb.Out

/-!
# Generated request functions

`_c_request_helper` in `c_client.py` writes a C function for each request. The function fills in a
struct with the fields of fixed size, and a scatter list: two free entries for `xcb_send_request`,
the struct and its padding, then each list parameter and its padding.

What it writes is a list of statements here, and running the statements gives the vector that is
passed to `xcb_send_request`. The struct begins as whatever is on the stack. The layout of a C
struct is taken to be that of the wire, so a struct is a sequence of members; the members, like the
parameters, are found by their names.

## Main definitions

* `Request` — a request description
* `Request.emit` — `_c_request_helper`, without the declarations
* `Request.frame` — the local variables after the statements have run
* `Request.vector` — what `xcb_send_request` is passed

## Main results

* `Request.entries_eq` — the entries of the vector
-/

namespace Xcb.CClient

/-! ### Descriptions -/

/-- An integer type. -/
structure ScalarType where
  size : ℕ
  signed : Bool
  deriving DecidableEq, Repr

/-- The type of the members of a list. `size` is the `sizeof` of its C type; a member that is not of
fixed size has more bytes on the wire. -/
structure Member where
  size : ℕ
  fixedSize : Bool
  pos : 0 < size
  deriving Repr

instance : DecidableEq Member := fun m n =>
  decidable_of_iff (m.size = n.size ∧ m.fixedSize = n.fixedSize) (by cases m; cases n; simp)

/-- The type of a field. An `array` is a list of constant length with members of fixed size. -/
inductive FieldType
  | scalar (type : ScalarType)
  | struct (size : ℕ)
  | expr (type : ScalarType) (expr : Expression)
  | pad (nmemb : ℕ)
  | array (member : Member) (nmemb : ℕ)
  | list (member : Member) (expr : Expression)
  deriving DecidableEq, Repr

namespace FieldType

/-- `fixed_size()` -/
def fixedSize : FieldType → Bool
  | .list .. => false
  | _ => true

/-- The `sizeof` of a member of this type. -/
def size : FieldType → ℕ
  | .scalar type => type.size
  | .struct size => size
  | .expr type _ => type.size
  | .pad nmemb => nmemb
  | .array member nmemb => nmemb * member.size
  | .list .. => 0

end FieldType

/-- A field of a description: is it a parameter of the function, is it on the wire, and is it one
that `xcb_send_request` fills in? -/
structure Field where
  name : String
  type : FieldType
  visible : Bool
  wire : Bool
  auto : Bool
  deriving DecidableEq, Repr

/-- A request description. -/
structure Request where
  fields : List Field
  deriving DecidableEq, Repr

namespace Request

variable (r : Request)

/-- `param_fields` -/
def paramFields : List Field := r.fields.filter (·.visible)

/-- `wire_fields` -/
def wireFields : List Field := r.fields.filter fun f => f.wire && !f.auto

/-- `struct_fields`, of `_c_complex`. -/
def structFields : List Field := r.fields.filter fun f => f.type.fixedSize && f.wire

/-- The parameters that get entries of the vector. -/
def listParams : List Field := r.paramFields.filter fun f => !f.type.fixedSize

/-- `sizeof(xcb_out)` -/
def sizeofOut : BitVec 64 := BitVec.ofNat 64 (r.structFields.map (·.type.size)).sum

end Request

/-! ### What is emitted -/

/-- What an `iov_base` is set to. -/
inductive Pointer
  | null
  | out
  | param (name : String)
  deriving DecidableEq, Repr

/-- A statement of the function. The type of the member is written along with an assignment of an
expression, which is converted to it. -/
inductive Statement
  /-- `xcb_out.f = expr;` -/
  | assignExpr (field : String) (type : ScalarType) (value : CExpr)
  /-- `xcb_out.f = 0;`, for a byte -/
  | assignZero (field : String)
  /-- `memset(xcb_out.f, 0, n);` -/
  | memset (field : String) (n : ℕ)
  /-- `xcb_out.f = f;` -/
  | assignParam (field : String)
  /-- `memcpy(xcb_out.f, f, n);` -/
  | memcpy (field : String) (n : ℕ)
  /-- `xcb_parts[i].iov_base = p;` -/
  | iovBase (i : ℕ) (p : Pointer)
  /-- `xcb_parts[i].iov_len = sizeof(xcb_out);` -/
  | iovLenOut (i : ℕ)
  /-- `xcb_parts[i].iov_len = count * sizeof(member);` -/
  | iovLenList (i : ℕ) (count : CExpr) (member : ℕ)
  /-- `xcb_parts[i].iov_len = -xcb_parts[j].iov_len & 3;` -/
  | iovLenPad (i j : ℕ)
  deriving DecidableEq, Repr

/-- What is written for a field of fixed size. -/
def Field.assignment (f : Field) : List Statement :=
  match f.type with
  | .expr type e => [.assignExpr f.name type (e.emit .parameter)]
  | .pad nmemb => if nmemb = 1 then [.assignZero f.name] else [.memset f.name nmemb]
  | .scalar _ => [.assignParam f.name]
  | .struct _ => [.assignParam f.name]
  | .array _ nmemb => if nmemb = 1 then [.assignParam f.name] else [.memcpy f.name nmemb]
  | .list .. => []

/-- The entries of the lists among these parameters, from `xcb_parts[count]` on. -/
def listEntries (count : ℕ) : List Field → List Statement
  | [] => []
  | f :: fs =>
    match f.type with
    | .list member e =>
      [.iovBase count (.param f.name), .iovLenList count (e.emit .parameter) member.size,
        .iovBase (count + 1) .null, .iovLenPad (count + 1) count] ++ listEntries (count + 2) fs
    | _ => listEntries count fs

/-- The first loop over the parameters: `count` in `xcb_req`. -/
def Request.count (r : Request) : ℕ :=
  r.paramFields.foldl (fun count f => if f.type.fixedSize then count else count + 2) 2

/-- The number of entries of `xcb_parts`. -/
def Request.arraySize (r : Request) : ℕ := r.count + 2

/-- The body of the function. -/
def Request.emit (r : Request) : List Statement :=
  r.wireFields.flatMap Field.assignment ++
    [.iovBase 2 .out, .iovLenOut 2, .iovBase 3 .null, .iovLenPad 3 2] ++
    listEntries 4 r.paramFields

/-! ### Running it -/

/-- The arguments of a call: the elements of what is passed for a parameter, one for what is no
list, each as its bytes; and whether a null pointer is passed. -/
structure Arguments where
  elements : String → List (List UInt8)
  isNull : String → Bool

/-- The bytes of an argument in memory. -/
def Arguments.object (args : Arguments) (name : String) : List UInt8 :=
  (args.elements name).flatten

/-- An integer of `size` bytes in memory. -/
def toBytes : ℕ → ℕ → List UInt8
  | 0, _ => []
  | size + 1, n => UInt8.ofNat n :: toBytes size (n / 256)

/-- The integer promotions. -/
def ScalarType.promote (type : ScalarType) (bytes : List UInt8) : CInt where
  signed := type.signed || type.size < 4
  bits :=
    if type.signed then (BitVec.ofNat (8 * type.size) (ofBytes bytes)).signExtend 32
    else BitVec.ofNat 32 (ofBytes bytes)

/-- The assignment of a value to an integer. -/
def ScalarType.convert (type : ScalarType) (value : CInt) : List UInt8 :=
  toBytes type.size (BitVec.ofInt (8 * type.size) value.toInt).toNat

namespace Request

variable (r : Request) (args : Arguments)

/-- The type of a parameter. -/
def typeOf (name : String) : ScalarType :=
  match r.fields.find? (·.name == name) with
  | some ⟨_, .scalar type, _, _, _⟩ => type
  | _ => ⟨4, false⟩

/-- The value of a parameter. -/
def number (name : String) : CInt :=
  (r.typeOf name).promote (args.object name)

/-- In the function, a name is that of a parameter. An accessor of a variable field is called
without an argument, which is no C; it gets some value here. -/
def scope : CScope where
  field _ name := r.number args name
  accessor _ _ := .int 0

end Request

/-- An entry of `xcb_parts`. -/
structure Entry where
  base : Pointer
  len : BitVec 64
  deriving DecidableEq, Repr

/-- The local variables: the members of `xcb_out`, and the entries of `xcb_parts` as far as they
are set. -/
structure Frame where
  out : String → List UInt8
  base : ℕ → Option Pointer
  len : ℕ → Option (BitVec 64)

namespace Frame

def setOut (f : Frame) (field : String) (bytes : List UInt8) : Frame :=
  { f with out := Function.update f.out field bytes }

def setBase (f : Frame) (i : ℕ) (p : Pointer) : Frame :=
  { f with base := Function.update f.base i (some p) }

def setLen (f : Frame) (i : ℕ) (n : BitVec 64) : Frame :=
  { f with len := Function.update f.len i (some n) }

/-- An entry that is set. -/
def entry (f : Frame) (i : ℕ) : Entry := ⟨(f.base i).getD .null, (f.len i).getD 0⟩

end Frame

namespace Request

variable (r : Request) (args : Arguments)

/-- One statement. -/
def exec (f : Frame) : Statement → Frame
  | .assignExpr field type value => f.setOut field (type.convert (value.eval (r.scope args)))
  | .assignZero field => f.setOut field [0]
  | .memset field n => f.setOut field (List.replicate n 0 ++ (f.out field).drop n)
  | .assignParam field => f.setOut field (args.object field)
  | .memcpy field n => f.setOut field ((args.object field).take n ++ (f.out field).drop n)
  | .iovBase i p => f.setBase i p
  | .iovLenOut i => f.setLen i r.sizeofOut
  | .iovLenList i count member =>
    f.setLen i ((count.eval (r.scope args)).toSize * BitVec.ofNat 64 member)
  | .iovLenPad i j => f.setLen i (-(f.len j).getD 0 &&& 3)

/-- The variables at the beginning: the struct holds what is on the stack. -/
def start (stack : String → List UInt8) : Frame where
  out := stack
  base _ := none
  len _ := none

/-- The variables at the call of `xcb_send_request`. -/
def frame (stack : String → List UInt8) : Frame :=
  r.emit.foldl (r.exec args) (start stack)

/-- The bytes of `xcb_out`. -/
def outBytes (f : Frame) : List UInt8 :=
  r.structFields.flatMap fun field => f.out field.name

/-- `xcb_parts + 2`, with `count` entries. -/
def entries (stack : String → List UInt8) : List Entry :=
  (List.range' 2 r.count).map (r.frame args stack).entry

/-- An entry, as a part of the call of `xcb_send_request`. -/
def part (stack : String → List UInt8) (e : Entry) : Part :=
  match e.base with
  | .null => .null e.len.toNat
  | .out => .bytes ((r.outBytes (r.frame args stack)).take e.len.toNat)
  | .param name =>
    if args.isNull name then .null e.len.toNat
    else .bytes ((args.object name).take e.len.toNat)

/-- The vector that `xcb_send_request` is passed. -/
def vector (stack : String → List UInt8) : List Part :=
  (r.entries args stack).map (r.part args stack)

end Request

/-! ### An example -/

/-- The core request `InternAtom`: a flag in the header, the length of a name, and the name. -/
def internAtom : Request where
  fields := [
    ⟨"major_opcode", .scalar ⟨1, false⟩, false, true, true⟩,
    ⟨"only_if_exists", .scalar ⟨1, false⟩, true, true, false⟩,
    ⟨"length", .scalar ⟨2, false⟩, false, true, true⟩,
    ⟨"name_len", .scalar ⟨2, false⟩, true, true, false⟩,
    ⟨"pad0", .pad 2, false, true, false⟩,
    ⟨"name", .list ⟨1, true, Nat.one_pos⟩ (.length (.field "name_len" false) false), true, true,
      false⟩]

/-- The arguments of a call of it, for a short name. -/
def internAtomCall (name : List UInt8) : Arguments where
  elements field :=
    if field = "name" then name.map fun byte => [byte]
    else if field = "name_len" then [toBytes 2 name.length]
    else [[0]]
  isNull _ := false

-- what is on the stack stays in the bytes that `xcb_send_request` fills in
example : internAtom.vector (internAtomCall [65, 66, 67])
      (fun name => if name = "major_opcode" then [7] else [7, 7]) =
    [.bytes [7, 0, 7, 7, 3, 0, 0, 0], .null 0, .bytes [65, 66, 67], .null 1] := by decide

/-! ### The members of the struct -/

/-- What a member holds after its assignment, if it held `old` before. -/
def Field.assigned (r : Request) (args : Arguments) (f : Field) (old : List UInt8) : List UInt8 :=
  match f.type with
  | .expr type e => type.convert ((e.emit .parameter).eval (r.scope args))
  | .pad nmemb => if nmemb = 1 then [0] else List.replicate nmemb 0 ++ old.drop nmemb
  | .scalar _ => args.object f.name
  | .struct _ => args.object f.name
  | .array _ nmemb =>
    if nmemb = 1 then args.object f.name
    else (args.object f.name).take nmemb ++ old.drop nmemb
  | .list .. => old

namespace Request

variable {r : Request} {args : Arguments}

theorem foldl_assignment (field : Field) (f : Frame) :
    field.assignment.foldl (r.exec args) f =
      f.setOut field.name (field.assigned r args (f.out field.name)) := by
  obtain ⟨name, type, visible, wire, auto⟩ := field
  cases type with
  | expr type e => rfl
  | pad nmemb =>
    simp only [Field.assignment, Field.assigned]
    split <;> rfl
  | scalar type => rfl
  | struct size => rfl
  | array member nmemb =>
    simp only [Field.assignment, Field.assigned]
    split <;> rfl
  | list member e =>
    simp only [Field.assignment, Field.assigned, Frame.setOut, List.foldl_nil,
      Function.update_eq_self]

/-- The assignments set each member once, and leave the vector alone. -/
theorem foldl_assignments (r : Request) (args : Arguments) {fields : List Field}
    (hnodup : (fields.map (·.name)).Nodup)
    (f : Frame) :
    let g := (fields.flatMap Field.assignment).foldl (r.exec args) f
    g.base = f.base ∧ g.len = f.len ∧
      (∀ field ∈ fields, g.out field.name = field.assigned r args (f.out field.name)) ∧
      ∀ name ∉ fields.map (·.name), g.out name = f.out name := by
  induction fields generalizing f with
  | nil => exact ⟨rfl, rfl, nofun, fun _ _ => rfl⟩
  | cons field fields ih =>
    obtain ⟨hnot, hnodup⟩ := List.nodup_cons.mp hnodup
    rw [List.flatMap_cons, List.foldl_append, foldl_assignment]
    obtain ⟨hbase, hlen, hset, hkept⟩ :=
      ih hnodup (f.setOut field.name (field.assigned r args (f.out field.name)))
    refine ⟨hbase, hlen, ?_, ?_⟩
    · intro other hother
      rcases List.mem_cons.mp hother with rfl | hmem
      · rw [hkept _ hnot]
        exact Function.update_self ..
      · have hne : other.name ≠ field.name := fun heq =>
          hnot (List.mem_map.mpr ⟨other, hmem, heq⟩)
        rw [hset other hmem]
        exact congrArg _ (Function.update_of_ne hne ..)
    · intro name hname
      rw [List.map_cons, List.mem_cons, not_or] at hname
      obtain ⟨hne, hname⟩ := hname
      rw [hkept name hname]
      exact Function.update_of_ne hne ..

/-! ### The entries of the vector -/

/-- The `iov_len` of a list. -/
def listLen (r : Request) (args : Arguments) (field : Field) : BitVec 64 :=
  match field.type with
  | .list member e =>
    ((e.emit .parameter).eval (r.scope args)).toSize * BitVec.ofNat 64 member.size
  | _ => 0

/-- The `iov_len` of the padding after `n` bytes. -/
def padding (n : BitVec 64) : BitVec 64 := -n &&& 3

theorem toNat_padding (n : BitVec 64) : (padding n).toNat = (4 - n.toNat % 4) % 4 := by
  have hmod : (padding n).toNat = (-n).toNat % 4 := by
    rw [padding, BitVec.toNat_and]
    exact Nat.and_two_pow_sub_one_eq_mod _ 2
  have hneg : (-n).toNat = (2 ^ 64 - n.toNat) % 2 ^ 64 := BitVec.toNat_neg ..
  have hlt := n.isLt
  omega

/-- The entries of the lists, each with its padding. -/
def listsOf (r : Request) (args : Arguments) (fields : List Field) : List Entry :=
  fields.flatMap fun field =>
    [⟨.param field.name, r.listLen args field⟩, ⟨.null, padding (r.listLen args field)⟩]

/-- The entries of a list and of its padding. -/
def setList (r : Request) (args : Arguments) (f : Frame) (i : ℕ) (field : Field) : Frame :=
  (((f.setBase i (.param field.name)).setLen i (r.listLen args field)).setBase (i + 1)
    .null).setLen (i + 1) (padding (r.listLen args field))

theorem entry_setList_self (f : Frame) (i : ℕ) (field : Field) :
    (r.setList args f i field).entry i = ⟨.param field.name, r.listLen args field⟩ := by
  have hne : i ≠ i + 1 := i.lt_succ_self.ne
  simp only [Frame.entry, setList, Frame.setBase, Frame.setLen, Function.update_of_ne hne,
    Function.update_self, Option.getD_some]

theorem entry_setList_succ (f : Frame) (i : ℕ) (field : Field) :
    (r.setList args f i field).entry (i + 1) = ⟨.null, padding (r.listLen args field)⟩ := by
  simp only [Frame.entry, setList, Frame.setBase, Frame.setLen, Function.update_self,
    Option.getD_some]

theorem foldl_listEntries_cons {field : Field} {member : Member} {e : Expression}
    (htype : field.type = .list member e) (fields : List Field) (i : ℕ) (f : Frame) :
    (listEntries i (field :: fields)).foldl (r.exec args) f =
      (listEntries (i + 2) fields).foldl (r.exec args) (r.setList args f i field) := by
  simp only [listEntries, htype, List.cons_append, List.nil_append, List.foldl_cons]
  congr 1
  simp only [exec, setList, listLen, htype, padding, Frame.setBase, Frame.setLen,
    Function.update_self, Option.getD_some]

theorem exists_list_of_not_fixedSize {type : FieldType} (h : type.fixedSize = false) :
    ∃ member e, type = .list member e := by
  cases type with
  | list member e => exact ⟨member, e, rfl⟩
  | _ => cases h

theorem listEntries_cons_of_fixedSize {field : Field} (h : field.type.fixedSize = true)
    (fields : List Field) (i : ℕ) :
    listEntries i (field :: fields) = listEntries i fields := by
  obtain ⟨name, type, visible, wire, auto⟩ := field
  cases type <;> first | rfl | cases h

/-- The loop leaves the struct and the entries before it alone, and makes those of the lists. -/
theorem foldl_listEntries (r : Request) (args : Arguments) (fields : List Field) (i : ℕ)
    (f : Frame) :
    let lists := fields.filter fun field => !field.type.fixedSize
    let g := (listEntries i fields).foldl (r.exec args) f
    g.out = f.out ∧ (∀ j < i, g.entry j = f.entry j) ∧
      (List.range' i (2 * lists.length)).map g.entry = r.listsOf args lists := by
  induction fields generalizing i f with
  | nil => exact ⟨rfl, fun _ _ => rfl, rfl⟩
  | cons field fields ih =>
    cases hfixed : field.type.fixedSize with
    | true =>
      rw [listEntries_cons_of_fixedSize hfixed, List.filter_cons_of_neg (by simp [hfixed])]
      exact ih i f
    | false =>
      obtain ⟨member, e, htype⟩ := exists_list_of_not_fixedSize hfixed
      rw [foldl_listEntries_cons htype, List.filter_cons_of_pos (by simp [hfixed])]
      obtain ⟨hout, hkept, hentries⟩ := ih (i + 2) (r.setList args f i field)
      refine ⟨hout, ?_, ?_⟩
      · intro j hj
        have h0 : j ≠ i := hj.ne
        have h1 : j ≠ i + 1 := by omega
        rw [hkept j (by omega)]
        simp only [Frame.entry, setList, Frame.setBase, Frame.setLen, Function.update_of_ne h0,
          Function.update_of_ne h1]
      · rw [List.length_cons, show 2 * (_ + 1) = 2 * _ + 1 + 1 from rfl, List.range'_succ,
          List.range'_succ, List.map_cons, List.map_cons, hentries, hkept i (by omega),
          hkept (i + 1) (by omega), entry_setList_self, entry_setList_succ]
        rfl

/-! ### The vector -/

theorem count_eq (r : Request) : r.count = 2 + 2 * r.listParams.length := by
  have hfold : ∀ (fields : List Field) (n : ℕ),
      fields.foldl (fun count f => if f.type.fixedSize then count else count + 2) n =
        n + 2 * (fields.filter fun f => !f.type.fixedSize).length := by
    intro fields
    induction fields with
    | nil => exact fun n => rfl
    | cons field fields ih =>
      intro n
      rw [List.foldl_cons, ih]
      cases hfixed : field.type.fixedSize with
      | true =>
        rw [List.filter_cons_of_neg (by simp [hfixed])]
        rfl
      | false =>
        rw [List.filter_cons_of_pos (by simp [hfixed]), List.length_cons]
        change n + 2 + 2 * _ = n + 2 * (_ + 1)
        ring
  exact hfold r.paramFields 2

/-- The entries of the struct and of its padding. -/
def setStruct (r : Request) (f : Frame) : Frame :=
  (((f.setBase 2 .out).setLen 2 r.sizeofOut).setBase 3 .null).setLen 3 (padding r.sizeofOut)

theorem frame_eq (r : Request) (args : Arguments) (stack : String → List UInt8) :
    r.frame args stack = (listEntries 4 r.paramFields).foldl (r.exec args)
      (r.setStruct ((r.wireFields.flatMap Field.assignment).foldl (r.exec args)
        (start stack))) := by
  rw [frame, emit, List.foldl_append, List.foldl_append]
  rfl

/-- The struct is that of the assignments. -/
theorem out_frame (r : Request) (args : Arguments) (stack : String → List UInt8) :
    (r.frame args stack).out =
      ((r.wireFields.flatMap Field.assignment).foldl (r.exec args) (start stack)).out := by
  rw [frame_eq]
  exact (foldl_listEntries r args r.paramFields 4 _).1

/-- **The entries**: the struct, its padding, and each list with its padding. -/
theorem entries_eq (r : Request) (args : Arguments) (stack : String → List UInt8) :
    r.entries args stack =
      ⟨.out, r.sizeofOut⟩ :: ⟨.null, padding r.sizeofOut⟩ :: r.listsOf args r.listParams := by
  obtain ⟨-, hkept, hentries⟩ := foldl_listEntries r args r.paramFields 4
    (r.setStruct ((r.wireFields.flatMap Field.assignment).foldl (r.exec args) (start stack)))
  rw [← frame_eq] at hkept hentries
  rw [entries, count_eq, Nat.add_comm, List.range'_succ, List.range'_succ, List.map_cons,
    List.map_cons, hkept 2 (by omega), hkept 3 (by omega)]
  exact congrArg _ (congrArg _ hentries)

end Request

end Xcb.CClient
