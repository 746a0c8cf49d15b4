import StainedGlass.Broker.Tickets

/-! From the request of `broker/sg-elevate.c` to the program that is executed. -/

namespace StainedGlass.Broker

open Lib

structure Block where
  cwd : CString
  env : List CString
  args : List CString
  env_ne : ∀ kv ∈ env, kv.bytes ≠ []

def Block.strings (b : Block) : List CString := b.cwd :: b.env ++ .empty :: b.args

/-- What `sg-elevate` finds: arguments, directory, environment and the user's colours. -/
structure Elevate where
  argv : List CString
  cwd : Option CString
  winePrefix : Option CString
  lang : Option CString
  debug : Option CString
  appsLight : Option Nat
  systemLight : Option Nat
  accent : Option Nat

def keyValue (size : Nat) (key : String) (v : Bytes) : CString :=
  .ofBuffer ((ascii (key ++ "=") ++ v).take (size - 1))

def Elevate.look (e : Elevate) : List CString :=
  (e.appsLight.map fun v => keyValue 64 "SG_USER_APPS_LIGHT" (decimal (if v = 0 then 0 else 1))).toList ++
  (e.systemLight.map fun v => keyValue 64 "SG_USER_SYSTEM_LIGHT" (decimal (if v = 0 then 0 else 1))).toList ++
  (e.accent.map fun v => keyValue 64 "SG_USER_ACCENT" (hex 8 v)).toList

def afterReady : List CString → List CString
  | a :: f :: rest => if a = .ofString "--ready" then rest else a :: f :: rest
  | rest => rest

def Elevate.options (e : Elevate) : Bool × List CString :=
  let rest := afterReady e.argv
  let wine := rest.head? = some (.ofString "--wine")
  let rest := if wine then rest.tail else rest
  (wine, if rest.head? = some (.ofString "--") then rest.tail else rest)

def Elevate.env (e : Elevate) : List CString :=
  (e.winePrefix.map fun v => keyValue 4200 "WINEPREFIX" v.bytes).toList ++
  (e.lang.map fun v => keyValue 4200 "LANG" v.bytes).toList ++
  ((e.debug.filter fun v => !v.bytes.isEmpty).map fun v => keyValue 600 "WINEDEBUG" v.bytes).toList ++
  (if e.options.1 then e.look else [])

def Elevate.program (e : Elevate) : List CString :=
  (if e.options.1 then [.ofString "wine"] else []) ++ e.options.2

def Elevate.payload (e : Elevate) : Option Bytes :=
  if e.options.2 = [] then none
  else (e.cwd.getD (.ofString "/") :: e.env ++ .empty :: e.program).foldlM (put maxBlob) []

structure Parsed where
  cwd : CString
  env : List CString
  args : List CString
  deriving DecidableEq

def envStrings : Bytes → List CString × Bytes
  | [] => ([], [])
  | 0 :: p => ([], 0 :: p)
  | c :: p =>
    let r := envStrings (nextString (c :: p)).2
    ((nextString (c :: p)).1 :: r.1, r.2)
termination_by p => p.length
decreasing_by simp only [nextString, List.length_drop, List.length_cons]; omega

def parseBlock (blob : Bytes) : Parsed :=
  let (cwd, p) := nextString blob
  let (env, p) := envStrings p
  ⟨cwd, env.take 63, (unpack (p.drop 1)).take 255⟩

abbrev Env := String → Option CString

def Env.set (e : Env) (key : String) (v : CString) : Env := fun k => if k = key then some v else e k

def Env.unset (e : Env) (key : String) : Env := fun k => if k = key then none else e k

def Env.empty : Env := fun _ => none

def path : CString := .ofString "/opt/wine-sg/bin:/usr/local/bin:/usr/bin:/bin"

/-- Where a `chdir` leads, what is a console program, and the display that can be had. -/
structure Machine where
  chdir : CString → CString → Option CString
  isConsoleProgram : CString → CString → Bool
  display : Option Nat
  cookie : CString
  statusFd : Option CString
  brokerDir : CString
  ownDisplay : Bool
  runtimeDir : Bool
  sessionEnv : List CString

def Machine.chdirOr (m : Machine) (dir dest : CString) : CString := (m.chdir dir dest).getD dir

def root : CString := .ofString "/"

structure Exec where
  argv : List CString
  dir : CString
  env : Env
  uid : UInt32

def isLocaleByte (c : UInt8) : Bool := isAlnum c || c ∈ ascii "_.-@"

def localeOk (v : CString) : Bool :=
  !v.bytes.isEmpty && v.bytes.length ≤ 64 && v.bytes.all isLocaleByte

def debugChannelsOk (v : CString) : Bool :=
  !v.bytes.isEmpty && v.bytes.length ≤ 512 && v.bytes.all fun c => isAlnum c || c ∈ ascii "+-_,"

def honoured (errfd : Bool) : List (String × (CString → Bool)) :=
  [("WINEPREFIX", fun _ => true), ("SG_USER_APPS_LIGHT", fun _ => true),
    ("SG_USER_SYSTEM_LIGHT", fun _ => true), ("SG_USER_ACCENT", fun _ => true),
    ("LANG", localeOk), ("WINEDEBUG", fun v => errfd && debugChannelsOk v)]

def entryFor (kv : CString) (key : String) : Option CString :=
  if (ascii (key ++ "=")).isPrefixOf kv.bytes then
    some (.ofBuffer (kv.bytes.drop (ascii (key ++ "=")).length))
  else none

def honour (kv : CString) (e : Env) (row : String × (CString → Bool)) : Env :=
  match (entryFor kv row.1).filter row.2 with
  | some v => e.set row.1 v
  | none => e

def launchEntry (errfd : Bool) (e : Env) (kv : CString) : Env :=
  (honoured errfd).foldl (honour kv) e

def launchEnv (pw : Option Passwd) (errfd : Bool) (env : List CString) : Env :=
  let e := match pw with
    | some pw =>
      ((Env.empty.set "USER" pw.name).set "LOGNAME" pw.name).set "HOME"
        (if pw.dir.bytes.isEmpty then .ofString "/var/lib/stained-glass" else pw.dir)
    | none => Env.empty
  let e := ((e.set "PATH" path).set "SG_IN_BROKER" (.ofString "1")).set "LANG" (.ofString "C.UTF-8")
  env.foldl (launchEntry errfd) e

def launchArgv (cfg : Config) (control : CString) (uid : UInt32) (args : List CString) :
    List CString :=
  [cfg.elevatedRun, .ofString "--control", control, .ofString "--uid", .decimal uid.toNat,
    .ofString "--"] ++ args.take 253

structure RunOptions where
  control : Option CString
  uid : Int
  asUid : Int

def runOptions (o : RunOptions) : List CString → RunOptions × List CString
  | [] => (o, [])
  | [a] => if a = .ofString "--" then (o, []) else (o, [a])
  | a :: v :: rest =>
    if a = .ofString "--control" then runOptions { o with control := some v } rest
    else if a = .ofString "--uid" then runOptions { o with uid := strtoll v.bytes } rest
    else if a = .ofString "--as-uid" then runOptions { o with asUid := strtoll v.bytes } rest
    else if a = .ofString "--" then (o, v :: rest)
    else (o, a :: v :: rest)

def prefixDir (e : Env) : CString :=
  match e "WINEPREFIX" with
  | some p => if p.bytes.isEmpty then .ofString "/var/lib/stained-glass/prefix" else p
  | none => .ofString "/var/lib/stained-glass/prefix"

def consoleArgs (m : Machine) (e : Env) (args : List CString) : List CString :=
  match args with
  | a :: p :: rest =>
    if a = .ofString "wine" ∧ m.isConsoleProgram (prefixDir e) p then
      a :: .ofString "wineconsole" :: p :: rest
    else args
  | args => args

def startDir (m : Machine) (e : Env) (dir : CString) : CString :=
  if dir = root then
    m.chdirOr dir
      (.ofBuffer (((prefixDir e).bytes ++ ascii "/drive_c/windows/system32").take 4095))
  else dir

def Env.setPerson (e : Env) : Option Passwd → Env
  | some rpw =>
    if rpw.name.bytes.isEmpty then e else (e.set "USER" rpw.name).set "LOGNAME" rpw.name
  | none => e

def displayEnv (m : Machine) (db : Accounts) (display : Nat) (uid : Int) (asOther : Bool) (e : Env) :
    Env :=
  let e := (e.set "DISPLAY" (.ofBuffer (58 :: decimal display))).set "XAUTHORITY" m.cookie
  let e := (e.unset "WAYLAND_DISPLAY").set "SG_WINSTATION"
    (.ofBuffer (ascii "WinSta0\\sg-elevated-" ++ decimal display))
  if asOther then e
  else
    let e := (e.set "SG_SESSION_UID" (.ofBuffer (signedDecimal uid))).set "SG_ELEVATED_IDENTITY"
      (.ofString "1")
    let e := e.setPerson (db.getpwuid (UInt32.ofNat uid.toNat))
    ((e.unset "SG_USER_APPS_LIGHT").unset "SG_USER_SYSTEM_LIGHT").unset "SG_USER_ACCENT"

def elevatedRun (m : Machine) (db : Accounts) (euid : UInt32) (e : Env) (dir : CString)
    (argv : List CString) : Option Exec :=
  let (o, args) := runOptions ⟨e "SG_ELEVATED_CONTROL", -1, -1⟩ argv.tail
  if o.control = none ∨ o.uid < 0 ∨ args = [] then none
  else
    let sysName := match e "SG_SYSTEM_USER" with
      | some s => if s.bytes.isEmpty then .ofString "sgsystem" else s
      | none => .ofString "sgsystem"
    let account := if o.asUid < 0 then some euid
      else if euid ≠ 0 ∨ o.asUid < 1000 then none
      else
        match db.getpwuid (UInt32.ofNat o.asUid.toNat), db.getpwnam sysName with
        | some pw, some sys => if UInt32.ofNat o.asUid.toNat = sys.uid then none else some pw.uid
        | _, _ => none
    match account, m.display with
    | some uid, some display =>
      let e := e.unset "SG_ELEVATED_STATUS_FD"
      let e := displayEnv m db display o.uid (0 ≤ o.asUid) e
      some ⟨consoleArgs m e args, startDir m e dir, e, uid⟩
    | _, _ => none

def launch (m : Machine) (db : Accounts) (cfg : Config) (euid : UInt32) (p : Parsed)
    (control : CString) (uid : UInt32) (errfd : Bool) : Option Exec :=
  let e := launchEnv (db.getpwnam cfg.systemUser) errfd p.env
  let dir := if p.cwd.bytes.isEmpty then m.brokerDir
    else (m.chdir m.brokerDir p.cwd).getD (m.chdirOr m.brokerDir root)
  if control.bytes.isEmpty then some ⟨p.args, dir, e, euid⟩
  else
    let e := match m.statusFd with
      | some fd => e.set "SG_ELEVATED_STATUS_FD" fd
      | none => e
    elevatedRun m db euid e dir (launchArgv cfg control uid p.args)

def elevateRequest (m : Machine) (db : Accounts) (cfg : Config) (euid : UInt32) (blob : Bytes)
    (allowed : Bool) (control : CString) (uid : UInt32) (errfd : Bool) : Option Exec :=
  if blob = [] ∨ maxBlob < blob.length then none
  else
    let p := parseBlock (blob.dropLast ++ [0])
    if p.cwd ∈ ["@logon", "@launch", "@shadow", "@polkit"].map CString.ofString then none
    else if p.args = [] ∨ !allowed then none
    else launch m db cfg euid p control uid errfd

def unquote (v : Bytes) : Bytes :=
  match v with
  | q :: rest => if q = 39 ∨ q = 34 then rest.take (v.length - 2) else v
  | [] => []

def sessionLine (e : Env) (line : CString) : Env :=
  match cut 61 line.bytes with
  | none => e
  | some (key, v) =>
    match ["DISPLAY", "WAYLAND_DISPLAY", "XDG_RUNTIME_DIR"].find? fun k => ascii k = key with
    | some k => e.set k (.ofBuffer (unquote v))
    | none => e

def accountEnv (cfg : Config) (pw : Passwd) (ticket : CString) : Env :=
  let e := ((Env.empty.set "HOME" pw.dir).set "USER" pw.name).set "LOGNAME" pw.name
  let e := (e.set "SHELL" (if pw.shell.bytes.isEmpty then .ofString "/bin/sh" else pw.shell)).set
    "PATH" path
  ((e.set "LANG" (.ofString "C.UTF-8")).set "WINEPREFIX" cfg.launchPrefix).set
    "SG_LAUNCH_TICKET" ticket

def spawnExec (m : Machine) (db : Accounts) (cfg : Config) (pw : Passwd) (f : SpawnFields) :
    Option Exec :=
  let argv := cfg.launchWine :: f.args
  let e := accountEnv cfg pw f.ticket
  if !m.ownDisplay && !f.control.bytes.isEmpty then
    let dir := (if f.cwd.bytes.isEmpty then none else m.chdir m.brokerDir f.cwd).getD
      (m.chdirOr m.brokerDir root)
    elevatedRun m db 0 (e.set "SG_SYSTEM_USER" cfg.systemUser) dir
      ([cfg.elevatedRun, .ofString "--control", f.control, .ofString "--uid", f.requester,
        .ofString "--as-uid", .decimal pw.uid.toNat, .ofString "--"] ++ argv.take 255)
  else
    let dir := (if f.cwd.bytes.isEmpty then none else m.chdir m.brokerDir f.cwd).getD
      ((m.chdir m.brokerDir pw.dir).getD (m.chdirOr m.brokerDir root))
    let e := if m.runtimeDir then
        e.set "XDG_RUNTIME_DIR" (.ofBuffer (ascii "/run/user/" ++ decimal pw.uid.toNat))
      else e
    some ⟨argv, dir, m.sessionEnv.foldl sessionLine e, pw.uid⟩

def launchRequest (m : Machine) (db : Accounts) (cfg : Config) (s : Store) (blob : Bytes)
    (peer euid : UInt32) (now : Int) (control : CString) : Store × Option Exec :=
  if blob = [] ∨ maxBlob < blob.length then (s, none)
  else
    let p := parseBlock (blob.dropLast ++ [0])
    if p.cwd ≠ .ofString "@launch" then (s, none)
    else
      let (s, e) := handleLaunch db cfg s ⟨peer, p.env, p.args, euid, now, control⟩
      (s, e.bind fun e => e.run.bind fun (pw, f) => spawnExec m db cfg pw f)

end StainedGlass.Broker
