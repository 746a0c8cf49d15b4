import StainedGlass.Pdf.Engine

/-! The commands of the engine by where each can fail. -/

namespace StainedGlass.Pdf.Engine

open Lib

inductive Check
  | opened
  | refusal (kind : Kind) (message : Str)
  /-- A number that is read, or a call that changes nothing. -/
  | raises
  deriving DecidableEq

inductive Stage
  | check (c : Check)
  /-- Always refused. -/
  | refuse (kind : Kind) (message : Str)
  /-- A change of the document. -/
  | work
  /-- A change of the document in a `try`: for these exceptions the undo point is opened again. -/
  | attempt (catches : List Raised)
  /-- A check that takes the undo point off the list before it refuses. -/
  | giveUp (kind : Kind) (message : Str)
  /-- The same, always. -/
  | drop (kind : Kind) (message : Str)
  /-- The document made anew by another program, or the undo point taken off the list. -/
  | convert

def pageChecks : List Check :=
  [.opened, .refusal .invalid (str "page is not a number"), .refusal .range (str "no such page")]

def kvCheck : Check := .refusal .invalid (str "expected key=value: ")

def floatChecks : List Check := [.refusal .invalid (str "not numbers: "), .refusal .invalid (str "expected ")]

def objChecks : List Check := [.raises, .refusal .invalid (str "not an object"), .refusal .range (str "no such object")]

def annotChecks : List Check :=
  [.refusal .invalid (str "not an annotation"), .refusal .range (str "no such annotation")]

def widgetChecks : List Check := [.refusal .invalid (str "not a field"), .refusal .range (str "no such field")]

def pagesChecks : List Check := [.refusal .invalid (str "not a page list: "), .refusal .range (str "no such page")]

def colourCheck : Check := .refusal .invalid (str "not a colour: ")

def pictureMessage : Str := str "that file is not a picture this program can read"

def otherChecks : List Check :=
  [.refusal .open [], .refusal .open (str "not a PDF or a picture"),
    .refusal .password (str "the other document needs a password")]

def checked (cs : List Check) : List Stage := cs.map .check

inductive MarkKind
  | quads
  | note
  | freetext
  | shape
  | line
  | ink
  | stamp
  | unknown
  deriving DecidableEq

inductive ObjKind
  | text
  | image
  | path
  deriving DecidableEq

inductive SignatureKind
  | ink
  | text
  | image
  | unknown
  deriving DecidableEq

inductive EditCommand
  | properties
  | edittext
  | addtext
  | addimage
  | moveobj (kind : ObjKind)
  | delobj
  | replaceimage
  | annot (kind : MarkKind)
  | delannot
  | moveannot (recreated : Bool)
  | setannot
  | setfield
  | flatten
  | addfield
  | setfieldprops
  | delfield
  | movefield
  | formdetect
  | resetform
  | fillmark (known : Bool)
  | signature (kind : SignatureKind)
  | redactmark
  | redactfind
  | redactapply
  | sanitize
  | rotate
  | delete
  | move
  | insertblank
  | insertfile
  | extract
  | scan
  | ocr
  | decorate
  | optimize
  | addattachment
  | delattachment (comment : Bool)
  | replacepages
  | addlink
  | dellink
  | setoutline
  | reply
  | setstatus
  deriving DecidableEq

def EditCommand.before : EditCommand → List Check
  | .properties => [kvCheck]
  | .edittext => pageChecks ++ objChecks ++ [.refusal .invalid (str "not a text block"), kvCheck]
  | .addtext => pageChecks ++ [kvCheck, .refusal .invalid (str "no text")]
  | .addimage => pageChecks ++ [.refusal .invalid pictureMessage]
  | .moveobj .image =>
    pageChecks ++ objChecks ++ floatChecks ++ [.refusal .invalid (str "empty rectangle"),
      .refusal .invalid (str
        "this picture is part of the page's drawing and cannot be moved; delete it and add it again")]
  | .moveobj _ => pageChecks ++ objChecks ++ floatChecks ++ [.refusal .invalid (str "empty rectangle")]
  | .delobj => pageChecks ++ objChecks
  | .replaceimage =>
    pageChecks ++ objChecks ++ [.refusal .invalid (str "not a picture"), .refusal .invalid pictureMessage]
  | .annot _ => pageChecks ++ [kvCheck]
  | .delannot => pageChecks ++ annotChecks
  | .moveannot _ => pageChecks ++ annotChecks ++ floatChecks
  | .setannot => pageChecks ++ annotChecks ++ [kvCheck]
  | .setfield =>
    pageChecks ++ widgetChecks ++ [.refusal .invalid (str "the field is read-only"), .refusal .invalid []]
  | .flatten => [kvCheck]
  | .addfield => pageChecks ++ [kvCheck] ++ floatChecks
  | .setfieldprops =>
    pageChecks ++ widgetChecks ++ [kvCheck, .refusal .invalid (str "there is already a field called ")]
  | .delfield => pageChecks ++ widgetChecks
  | .movefield =>
    pageChecks ++ widgetChecks ++ floatChecks ++ [.refusal .invalid (str "the field is too small")]
  | .formdetect => [.opened, kvCheck] ++ pagesChecks ++ [.raises]
  | .resetform => [.opened]
  | .fillmark _ =>
    pageChecks ++ [kvCheck] ++ floatChecks ++ [.refusal .invalid (str "empty rectangle"), colourCheck]
  | .signature _ => pageChecks ++ floatChecks ++ [.refusal .invalid (str "empty rectangle")]
  | .redactmark => pageChecks ++ [kvCheck] ++ floatChecks ++ [.refusal .invalid (str "nothing marked")]
  | .redactfind =>
    [.opened, .refusal .invalid (str "unknown pattern"), .refusal .invalid (str "nothing to find"), .raises]
  | .redactapply => [.opened, .refusal .invalid (str "there is nothing marked for redaction")]
  | .sanitize => [kvCheck]
  | .rotate =>
    [.opened] ++ pagesChecks ++
      [.refusal .invalid (str "not an angle"), .refusal .invalid (str "not a quarter turn")]
  | .delete => [.opened] ++ pagesChecks ++ [.refusal .invalid (str "a document keeps at least one page")]
  | .move => [.opened] ++ pagesChecks ++ [.raises, .refusal .range (str "no such place")]
  | .insertblank => [.opened, .raises, .refusal .range (str "no such place"), .raises]
  | .insertfile => [.opened, .raises, .refusal .range (str "no such place")] ++ otherChecks
  | .extract =>
    [.opened, .refusal .secured (str "the document's security does not allow this")] ++ pagesChecks ++
      [.raises, .refusal .failed (str "could not save: "),
        .refusal .invalid (str "a document keeps at least one page")]
  | .scan => [kvCheck, .raises, .refusal .failed [], .raises]
  | .ocr =>
    [.opened, kvCheck, .refusal .invalid
      (str "an encrypted document's text cannot be recognized; remove its security first")] ++ pagesChecks
  | .decorate => [.opened, kvCheck] ++ pagesChecks
  | .optimize => [.opened, kvCheck, .raises]
  | .addattachment => [.opened, kvCheck, .refusal .open [], .raises]
  | .delattachment _ => [.opened]
  | .replacepages =>
    [.opened] ++ pagesChecks ++ otherChecks ++
      [.raises, .refusal .range (str "the other document has not that many pages")]
  | .addlink =>
    pageChecks ++ [kvCheck] ++ floatChecks ++ [.refusal .invalid (str "empty rectangle"), .raises,
      .refusal .range (str "no such page"), .refusal .invalid (str "a link goes to a web address or a page")]
  | .dellink => pageChecks ++ floatChecks ++ [.refusal .range (str "no link there")]
  | .setoutline =>
    [.opened, kvCheck, .refusal .invalid (str "a bookmark needs a level, a title and a page"), .raises,
      .refusal .range (str "no such page")]
  | .reply => pageChecks ++ annotChecks ++ [kvCheck]
  | .setstatus => pageChecks ++ annotChecks ++ [kvCheck, .refusal .invalid (str "unknown status")]

def EditCommand.perm {κ : Type} (s : State κ) : EditCommand → Nat
  | .annot _ => permAnnotate
  | .delannot => permAnnotate
  | .moveannot _ => permAnnotate
  | .setannot => permAnnotate
  | .reply => permAnnotate
  | .setstatus => permAnnotate
  | .setfield => permForm
  | .resetform => permForm
  | .addfield => if allowed s permForm && !allowed s permModify then permForm else permModify
  | .rotate => permAssemble
  | .delete => permAssemble
  | .move => permAssemble
  | .insertblank => permAssemble
  | .insertfile => permAssemble
  | .extract => permAssemble
  | .scan => permAssemble
  | .replacepages => permAssemble
  | _ => permModify

def annotTail (kind : MarkKind) : List Stage :=
  (match kind with
    | .freetext => []
    | .stamp => []
    | .shape => [.check colourCheck, .work]
    | _ => [.work]) ++
  (match kind with
    | .shape => [.check .raises, .work]
    | .line => [.check .raises, .work]
    | .ink => [.check .raises, .work]
    | _ => []) ++
  [.check .raises, .work, .work] ++
  match kind with
    | .ink => [.check .raises, .work]
    | _ => []

def EditCommand.body : EditCommand → List Stage
  | .edittext =>
    [.check .raises, .check colourCheck, .check .raises] ++ checked floatChecks ++ [.work, .work]
  | .addtext => checked floatChecks ++ [.check .raises, .check colourCheck, .check .raises, .work]
  | .addimage => checked floatChecks ++ [.work]
  | .moveobj _ => [.work, .work]
  | .replaceimage => [.work, .work]
  | .annot .quads =>
    [.check colourCheck] ++ checked floatChecks ++ [.check (.refusal .invalid (str "no text marked")), .work] ++
      annotTail .quads
  | .annot .note => [.check colourCheck] ++ checked floatChecks ++ [.work] ++ annotTail .note
  | .annot .freetext =>
    [.check colourCheck] ++ checked floatChecks ++ [.check .raises, .check colourCheck, .work] ++ annotTail .freetext
  | .annot .shape => [.check colourCheck] ++ checked floatChecks ++ [.work] ++ annotTail .shape
  | .annot .line => [.check colourCheck] ++ checked floatChecks ++ [.work] ++ annotTail .line
  | .annot .ink =>
    [.check colourCheck] ++ checked floatChecks ++ [.check (.refusal .invalid (str "no strokes")), .work] ++ annotTail .ink
  | .annot .stamp =>
    [.check colourCheck] ++ checked floatChecks ++ [.check (.refusal .invalid (str "unknown stamp")), .work] ++
      annotTail .stamp
  | .annot .unknown => [.check colourCheck, .refuse .invalid (str "unknown comment kind")]
  | .moveannot true => [.check (.refusal .invalid (str "this comment cannot be moved")), .work]
  | .setannot => [.work, .check colourCheck, .work, .work]
  | .setfield => [.work, .work]
  | .addfield => [.attempt [.form]]
  | .setfieldprops => [.attempt [.form]]
  | .delfield => [.attempt [.form]]
  | .fillmark true => [.work]
  | .fillmark false => [.drop .invalid (str "unknown mark")]
  | .signature .ink => checked floatChecks ++ [.giveUp .invalid (str "no strokes"), .work]
  | .signature .text => [.giveUp .invalid (str "no name"), .work]
  | .signature .image => [.giveUp .invalid pictureMessage, .work]
  | .signature .unknown => [.drop .invalid (str "unknown signature kind")]
  | .ocr => [.convert]
  | .decorate => [.attempt [.create, .value]]
  | .optimize => [.check .raises, .work, .work]
  | .delattachment true => [.check .raises] ++ checked pageChecks ++ checked annotChecks ++ [.work]
  | .delattachment false => [.giveUp .range (str "no such attachment"), .work]
  | _ => [.work]

/-- What becomes of a request: which checks fail, which changes raise, what each leaves of the document. -/
structure Fate (κ : Type) where
  fails : Nat → Option Str
  raises : Nat → Option Raised
  leaves : Nat → κ → κ
  trouble : Option Raised

variable {κ : Type}

def Check.raised (suffix : Str) : Check → Raised
  | .opened => .refusal .notopen (str "no document is open")
  | .refusal kind message => .refusal kind (message ++ suffix)
  | .raises => .other

def failing (doc : Option (Doc κ)) (fate : Fate κ) : Nat → List Check → Option Raised
  | _, [] => none
  | i, .opened :: cs =>
    if doc.isNone then some (Check.opened.raised []) else failing doc fate (i + 1) cs
  | i, c :: cs =>
    match fate.fails i with
    | some suffix => some (c.raised suffix)
    | none => failing doc fate (i + 1) cs

def ending (fate : Fate κ) : Nat → List Stage → κ → Ending κ
  | _, [], c => .done c
  | i, .check ch :: rest, c =>
    match fate.fails i with
    | some suffix => .raised c (ch.raised suffix)
    | none => ending fate (i + 1) rest c
  | _, .refuse kind message :: _, c => .raised c (.refusal kind message)
  | i, .work :: rest, c =>
    match fate.raises i with
    | some e => .raised (fate.leaves i c) e
    | none => ending fate (i + 1) rest (fate.leaves i c)
  | i, .attempt catches :: rest, c =>
    match fate.raises i with
    | some e => if catches.contains e then .rolledBack e else .raised (fate.leaves i c) e
    | none => ending fate (i + 1) rest (fate.leaves i c)
  | i, .giveUp kind message :: rest, c =>
    match fate.fails i with
    | some suffix => .gaveUp c (.refusal kind (message ++ suffix))
    | none => ending fate (i + 1) rest c
  | _, .drop kind message :: _, c => .gaveUp c (.refusal kind message)
  | i, .convert :: rest, c =>
    match fate.raises i with
    | some .create => .gaveUp c .create
    | some e => .raised c e
    | none => ending fate (i + 1) rest (fate.leaves i c)

def EditCommand.run (mu : Mupdf κ) (c : EditCommand) (fate : Fate κ) : Cmd κ Answer := fun s =>
  match s.doc with
  | some d =>
    edit mu (failing s.doc fate 0 c.before) (c.perm s)
      (Engine.ending fate c.before.length c.body d.file.content) fate.trouble s
  | none => (.error ((failing s.doc fate 0 c.before).getD (Check.opened.raised [])), s)

def certsign (mu : Mupdf κ) (checks : Option Raised) (out : Str) (signed : File κ) (reads : Bool)
    (trouble : Option Raised) : Cmd κ Answer := do
  let _ ← needDoc
  match checks with
  | some e => .fail e
  | none => do
    modify fun s => { s with saved := (out, signed) :: s.saved }
    Act.op (if reads then none else some .other) fun s =>
      { s.reopen mu signed with path := some out, dirty := false, undo := [], redo := [] }
    state trouble

def unlock (checks trouble : Option Raised) : Cmd κ Answer := do
  let _ ← needDoc
  match checks with
  | some e => .fail e
  | none => do
    modify fun s => { s with perms := permAll }
    state trouble

inductive Command (κ : Type)
  | edit (c : EditCommand) (fate : Fate κ)
  | openDoc (path : Str) (password : Option Str) (found : Except Raised (File κ)) (trouble : Option Raised)
  /-- `new`, `create` and `scan`, where they do not refuse. -/
  | adopt (c : κ) (trouble : Option Raised)
  | save (r : SaveRun κ)
  | undo (trouble : Option Raised)
  | redo (trouble : Option Raised)
  | protect (o : ProtectOpts) (trouble : Option Raised)
  | certsign (checks : Option Raised) (out : Str) (signed : File κ) (reads : Bool) (trouble : Option Raised)
  | unlock (checks trouble : Option Raised)
  /-- A command that changes nothing, or one that is refused before it changes anything. -/
  | look (refused : Option Raised)

def Command.run (u : Unicode) (mu : Mupdf κ) : Command κ → Cmd κ Unit
  | .edit c fate => c.run mu fate >>= fun _ => pure ()
  | .openDoc path password found trouble => Engine.openDoc mu path password found trouble >>= fun _ => pure ()
  | .adopt c trouble => Engine.adopt c trouble >>= fun _ => pure ()
  | .save r => Engine.save mu r >>= fun _ => pure ()
  | .undo trouble => undo_ mu trouble >>= fun _ => pure ()
  | .redo trouble => redo_ mu trouble >>= fun _ => pure ()
  | .protect o trouble => Engine.protect u o trouble >>= fun _ => pure ()
  | .certsign checks out signed reads trouble =>
    Engine.certsign mu checks out signed reads trouble >>= fun _ => pure ()
  | .unlock checks trouble => Engine.unlock checks trouble >>= fun _ => pure ()
  | .look refused => .op refused id

end StainedGlass.Pdf.Engine
