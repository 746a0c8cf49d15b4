import StainedGlass.Pdf.Engine

/-! The engine's commands on pages, `pdf/sgpdf.py`: MuPDF's operations on pages are those on
lists. -/

namespace StainedGlass.Pdf.Engine

open Lib

variable {π : Type}

def select (pages : List π) (order : List Nat) : List π := order.filterMap (pages[·]?)

def insertPdf (pages src : List π) (fromPage toPage startAt : Nat) : List π :=
  pages.take startAt ++ (src.drop fromPage).take (toPage + 1 - fromPage) ++ pages.drop startAt

def unesc : Str → Str
  | 92 :: n :: rest => (if n = 116 then 9 else if n = 110 then 10 else if n = 114 then 13 else n) :: unesc rest
  | c :: rest => c :: unesc rest
  | [] => []

def joinPath (folder name : Str) : Str :=
  if name.head? = some 47 then name
  else if folder = [] ∨ folder.getLast? = some 47 then folder ++ name
  else folder ++ 47 :: name

structure Texts where
  unicode : Unicode
  int : Str → Option Int

variable (t : Texts) (mu : Mupdf (List π)) (trouble : Option Raised)

def readPart (part : Str) : Option (List Int) :=
  if 45 ∈ part then do
    let a ← t.int (part.takeWhile (· ≠ 45))
    let b ← t.int ((part.dropWhile (· ≠ 45)).drop 1)
    pure ((List.range (max a b - min a b + 1).toNat).map fun i : Nat => min a b + (i : Int))
  else (t.int part).map ([·])

def parsePages (spec : Str) (n : Nat) : Except Raised (List Nat) :=
  match (((spec.splitOn 44).map t.unicode.strip).filter (· ≠ [])).mapM (readPart t) with
  | none => .error (.refusal .invalid (str "not a page list: " ++ spec.take 40))
  | some parts =>
    let out := parts.flatten
    if out = [] ∨ ∃ i ∈ out, i < 0 ∨ n ≤ i then .error (.refusal .range (str "no such page"))
    else .ok ((out.map Int.toNat).dedup.insertionSort (· ≤ ·))

def moveOrder (n : Nat) (sel : List Nat) (place : Int) : List Nat :=
  let rest := (List.range n).filter (· ∉ sel)
  let before := rest.countP fun (i : Nat) => decide ((i : Int) < place)
  rest.take before ++ sel ++ rest.drop before

def move (pages place : Str) : Cmd (List π) Answer := do
  let d ← needDoc
  let n := d.file.content.length
  match parsePages t pages n with
  | .error e => .fail e
  | .ok sel =>
    match t.int place with
    | none => .fail .value
    | some place =>
      if ¬ (0 ≤ place ∧ place ≤ n) then refuse .range (str "no such place")
      else if moveOrder n sel place = List.range n then state trouble
      else edit mu none permAssemble (.done (select d.file.content (moveOrder n sel place))) trouble

def replaceLoop (src : List π) : Nat → List Nat → List π → List π
  | _, [], pages => pages
  | page, i :: sel, pages =>
    replaceLoop src (page + 1) sel ((insertPdf pages src page page i).eraseIdx (i + 1))

/-- `openOther` gives the pages of the document at a path, opened with a password, or says why
there are none. -/
def replacepages (openOther : Str → Str → Except Raised (List π)) (pages path start pw : Str) :
    Cmd (List π) Answer := do
  let d ← needDoc
  match parsePages t pages d.file.content.length with
  | .error e => .fail e
  | .ok sel =>
    match openOther (unesc path) (unesc pw) with
    | .error e => .fail e
    | .ok src =>
      match if start = [] then some 1 else t.int start with
      | none => .fail .value
      | some start =>
        if start - 1 < 0 ∨ start - 1 + sel.length > src.length then
          refuse .range (str "the other document has not that many pages")
        else
          edit mu none permAssemble
            (.done (replaceLoop src (start - 1).toNat (sel.insertionSort (· ≤ ·)) d.file.content)) trouble

/-- The loop of `split` from part `k` on; `writeNew` is why a file is not written. -/
def splitLoop (writeNew : Str → Option Raised) (pages : List π) (every : Nat) (folder base : Str) :
    Nat → List Nat → Except Raised (List (Str × List π))
  | _, [] => .ok []
  | k, start :: starts => do
    let name := joinPath folder (base ++ str "_Part" ++ dec k ++ str ".pdf")
    match writeNew name with
    | some e => .error e
    | none => do
      let parts ← splitLoop writeNew pages every folder base (k + 1) starts
      pure ((name, insertPdf [] pages start (min pages.length (start + every) - 1) 0) :: parts)

def split (isDir : Str → Bool) (writeNew : Str → Option Raised) (every folder base : Str) :
    Cmd (List π) (List (Str × List π) × Str) := do
  let d ← needDoc
  match t.int every with
  | none => refuse .invalid (str "not a number")
  | some every =>
    if every < 1 then refuse .invalid (str "not a number")
    else if !isDir (unesc folder) then refuse .invalid (str "no such folder")
    else
      let starts := List.range' 0 ((d.file.content.length + every.toNat - 1) / every.toNat) every.toNat
      match splitLoop writeNew d.file.content every.toNat (unesc folder) (unesc base) 1 starts with
      | .error e => .fail e
      | .ok parts => pure (parts, joinLines (parts.map Prod.fst))

end StainedGlass.Pdf.Engine
