import StainedGlass.Lib.Assoc
import StainedGlass.Lib.Words
import StainedGlass.Pdf.DictTextLaws

/-! The objects that `sign_file` adds to a document and writes anew in it. -/

namespace StainedGlass.Pdf

open Lib

structure Arr where
  items : List Item
  tail : Str
  white : IsWhite tail
  gap : ∀ x ∈ items, IsWhite x.gap
  apart : items.IsChain fun x y => Apart x.value y.gap y.value
  value : ∀ x ∈ items, Value x.value

namespace Arr

def inner (a : Arr) : Str := a.items.flatMap Item.text ++ a.tail

def text (a : Arr) : Str := 91 :: (a.inner ++ [93])

def values (a : Arr) : List Str := a.items.map Item.value

end Arr

def Dictionary.get (d : Dictionary) (key : String) : Option Str := d.pairs.lookup (str key)

inductive Obj
  | dict (d : Dictionary)
  | array (a : Arr)
  | stream (d : Dictionary)
  | other (v : Str)

def Obj.text : Obj → Str
  | .dict d => d.text
  | .array a => a.text
  | .stream d => d.text
  | .other v => v

def null : Str := str "null"

def ref (n : Nat) : Str := dec n ++ str " 0 R"

def refTo (v : Str) : Option Nat :=
  if v.head?.any isDigit && v.getLast? == some 82 && v.any isWhite then
    digitsValue (fun c => if isDigit c then some (c - 48) else none) (v.takeWhile isDigit)
  else none

structure Document where
  /-- `xref_length()`. -/
  size : Nat
  object : Nat → Obj
  outside : ¬ (0 < n ∧ n < size) → object n = .other null
  nodup : object n = .dict d → (d.pairs.map Prod.fst).Nodup
  /-- `pdf_catalog()`. -/
  catalog : Nat
  root : Dictionary
  catalog_dict : object catalog = .dict root

inductive Kind
  | null | xref | array | dict | other
  deriving DecidableEq

def kind (v : Str) : Kind :=
  if (refTo v).isSome then .xref
  else if v.head? = some 91 then .array
  else if startsWith v (str "<<") then .dict
  else if v = Pdf.null then .null
  else .other

def classify : Option Str → Kind × Str
  | none => (.null, null)
  | some v =>
    match refTo v with
    | some n => (.xref, ref n)
    | none => (kind v, v)

namespace Document

variable (doc : Document)

def xrefObject (n : Nat) : Except Error Str :=
  if 0 < n ∧ n < doc.size then .ok (doc.object n).text else .error .valueError

def isStream (n : Nat) : Bool :=
  match doc.object n with
  | .stream _ => true
  | _ => false

def valueOf (n : Nat) (key : String) : Option Str :=
  match doc.object n with
  | .dict d => d.get key
  | .stream d => d.get key
  | _ => none

def getKey (n : Nat) (key : String) : Except Error (Kind × Str) :=
  if 0 < n ∧ n < doc.size then .ok (classify (doc.valueOf n key)) else .error .valueError

end Document

def escapeChar (c : Nat) : Str := if c = 92 ∨ c = 40 ∨ c = 41 then [92, c] else [c]

def hexChar (n : Nat) : Nat := if n < 10 then 48 + n else 55 + n

def hexUnit (u : Nat) : Str := [u / 4096, u / 256, u / 16, u].map fun n => hexChar (n % 16)

def utf16Units (c : Nat) : List Nat :=
  if c < 0x10000 then [c] else [0xd800 + (c - 0x10000) / 1024, 0xdc00 + (c - 0x10000) % 1024]

def pdfStr (s : Str) : Except Error Str :=
  if ∀ c ∈ s, 32 ≤ c ∧ c < 127 then .ok (str "(" ++ s.flatMap escapeChar ++ str ")")
  else if s.any isSurrogate then .error .valueError
  else .ok (str "<FEFF" ++ (s.flatMap utf16Units).flatMap hexUnit ++ str ">")

def CONTENTS_BYTES : Nat := 16384

def placeholder : Str := List.replicate (CONTENTS_BYTES * 2) 48

def brPlaceholder : Str := str "[0 0000000000 0000000000 0000000000]"

structure Request where
  date : Str
  signer : Str
  reason : Str
  location : Str
  contact : Str
  /-- The name of a new field and the corners of its box, as they are printed. -/
  name : Str
  rect : Str
  /-- The appearance's object, and the picture's. -/
  appearance : Str
  picture : Option Str
  scalar : ∀ t ∈ [date, signer, reason, location, contact, name], t.any isSurrogate = false

def optionalKey (key : String) (s : Str) : Except Error Str :=
  if s = [] then .ok [] else do .ok (str key ++ (← pdfStr s))

def sigHead : Str :=
  str "<</Type/Sig/Filter/Adobe.PPKLite/SubFilter/adbe.pkcs7.detached/ByteRange" ++ brPlaceholder ++
    str "/Contents"

def sigTail (r : Request) : Except Error Str := do
  let date ← pdfStr r.date
  let signer ← pdfStr r.signer
  let reason ← optionalKey "/Reason" r.reason
  let location ← optionalKey "/Location" r.location
  let contact ← optionalKey "/ContactInfo" r.contact
  .ok (str "/M" ++ date ++ str "/Name" ++ signer ++ reason ++ location ++ contact ++
    str "/Prop_Build<</App<</Name/SG#20PDF>>>>>>")

def sigDict (r : Request) : Except Error Str := do
  .ok (sigHead ++ str "<" ++ placeholder ++ str ">" ++ (← sigTail r))

def fontObject : Str :=
  str "<</Type/Font/Subtype/Type1/BaseFont/Helvetica/Encoding/WinAnsiEncoding>>"

section Rewritten

variable (u : Letters) (doc : Document)

def withItem (array : Str) (w : Nat) : Str :=
  (array.rdropWhile u.space).rdropWhile (· == 93) ++ str " " ++ ref w ++ str "]"

def refNumber (value : Str) : Except Error Nat :=
  match digitsValue u.digit (u.toUnicode.word value) with
  | some n => .ok n
  | none => .error .valueError

def toDict (pairs : List (Str × Str)) : Assoc Str Str := pairs.foldl (fun d p => d.set p.1 p.2) .empty

def printDict (pairs : List (Str × Str)) : Str :=
  str "<<" ++ pairs.flatMap (fun p => part p.1 p.2) ++ str ">>"

def formEntries (af : Str) : Except Error (Assoc Str Str) :=
  if startsWith (u.strip af) (str "<<") then do
    .ok (toDict (← u.topLevelEntries (((u.strip af).drop 2).take ((u.strip af).length - 4))))
  else .ok .empty

def formDict (af : Str) (newField : Option Nat) : Except Error Str := do
  let entries ← formEntries u af
  let old := (entries.get? (str "Fields")).getD (str "[]")
  let fields := newField.elim old (withItem u old)
  .ok (printDict ((entries.set (str "Fields") fields).set (str "SigFlags") (str "3")).items)

def withKeys (n : Nat) (kv : List (String × Str)) : Except Error Str := do
  let obj ← doc.xrefObject n
  if doc.isStream n then .error (.signError "cannot rewrite a stream object")
  else if !startsWith (u.strip obj) (str "<<") then .error (.signError "not a dictionary")
  else kv.foldlM (fun obj p => u.setInDict obj (str p.1) p.2) (u.strip obj)

def withKey (n : Nat) (key : String) (value : Str) : Except Error Str := withKeys u doc n [(key, value)]

/-- The page with the new field `w` among its annotations, or their array: the object's number and text. -/
def annotsUpdate (page w : Nat) : Except Error (Nat × Str) := do
  match ← doc.getKey page "Annots" with
  | (.array, annots) => do .ok (page, ← withKey u doc page "Annots" (withItem u annots w))
  | (.xref, annots) => do
    let ax ← refNumber u annots
    .ok (ax, withItem u (← doc.xrefObject ax) w)
  | _ => do .ok (page, ← withKey u doc page "Annots" (str "[" ++ ref w ++ str "]"))

def formUpdate (newField : Option Nat) : Except Error (Nat × Str) := do
  match ← doc.getKey doc.catalog "AcroForm" with
  | (.xref, af) => do
    let n ← refNumber u af
    .ok (n, ← formDict u (← doc.xrefObject n) newField)
  | (.dict, af) => do
    .ok (doc.catalog, ← withKey u doc doc.catalog "AcroForm" (← formDict u af newField))
  | _ => do
    .ok (doc.catalog, ← withKey u doc doc.catalog "AcroForm" (← formDict u (str "<<>>") newField))

end Rewritten

inductive Field
  /-- One drawn on the page. -/
  | new (page : Nat)
  /-- An empty signature field of the form; whether it is on a page. -/
  | existing (xref : Nat) (onPage : Bool)

structure Numbers where
  widget : Nat
  sig : Nat
  ap : Nat
  font : Nat
  pic : Nat

def Field.numbers (size : Nat) : Field → Numbers
  | .new _ => ⟨size, size + 1, size + 2, size + 3, size + 4⟩
  | .existing xref _ => ⟨xref, size, size + 1, size + 2, size + 3⟩

def checkField (doc : Document) : Field → Except Error Unit
  | .new _ => .ok ()
  | .existing xref onPage => do
    let t ← doc.getKey xref "FT"
    let parent ← doc.getKey xref "Parent"
    if t.1 = .null ∧ parent.1 ≠ .xref then .error (.signError "that is not a signature field")
    else do
      let v ← doc.getKey xref "V"
      if v.1 ≠ .null then .error (.signError "that field is signed already")
      else if !onPage then .error (.signError "the field is not on a page")
      else .ok ()

def widgetObject (r : Request) (page : Nat) (no : Numbers) : Except Error Str := do
  .ok (str "<</Type/Annot/Subtype/Widget/FT/Sig/T" ++ (← pdfStr r.name) ++ str "/Rect[" ++ r.rect ++
    str "]/F 132/P " ++ ref page ++ str "/V " ++ ref no.sig ++ str "/AP<</N " ++ ref no.ap ++ str ">>>>")

def ownObjects (r : Request) (no : Numbers) : Except Error (Assoc Nat Str) := do
  let sig ← sigDict r
  let objs := (Assoc.empty.set no.ap r.appearance).set no.font fontObject
  .ok ((r.picture.elim objs (objs.set no.pic)).set no.sig sig)

def fieldObjects (u : Letters) (doc : Document) (r : Request) (no : Numbers) (objs : Assoc Nat Str) :
    Field → Except Error (Assoc Nat Str)
  | .new page => do
    let objs := objs.set no.widget (← widgetObject r page no)
    let annots ← annotsUpdate u doc page no.widget
    .ok (objs.set annots.1 annots.2)
  | .existing xref _ => do
    .ok (objs.set xref (← withKeys u doc xref
      [("V", ref no.sig), ("AP", str "<</N " ++ ref no.ap ++ str ">>")]))

def Field.isNew : Field → Bool
  | .new _ => true
  | .existing _ _ => false

def signObjects (u : Letters) (doc : Document) (r : Request) (field : Field) :
    Except Error (Assoc Nat Str) := do
  checkField doc field
  let no := field.numbers doc.size
  let objs ← ownObjects r no
  let objs ← fieldObjects u doc r no objs field
  let form ← formUpdate u doc (if field.isNew then some no.widget else none)
  .ok (objs.set form.1 form.2)

end StainedGlass.Pdf
