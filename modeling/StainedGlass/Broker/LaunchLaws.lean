import StainedGlass.Broker.TicketsLaws
import StainedGlass.Broker.Launch

namespace StainedGlass.Broker

open Lib

theorem envStrings_pack (h : ∀ kv ∈ env, kv.bytes ≠ []) (rest : Bytes) :
    envStrings (pack env ++ 0 :: rest) = (env, 0 :: rest) := by
  induction env with
  | nil => rw [pack_nil, List.nil_append, envStrings]
  | cons kv env ih =>
    obtain ⟨c, p, hcp, hc⟩ : ∃ c p, pack (kv :: env) ++ 0 :: rest = c :: p ∧ c ≠ 0 := by
      cases hkv : kv.bytes with
      | nil => exact absurd hkv (h kv (.head _))
      | cons c cs =>
        refine ⟨c, cs ++ 0 :: (pack env ++ 0 :: rest), by simp [CString.terminated, hkv],
          fun h0 => kv.nul_free ?_⟩
        rw [hkv, h0]
        exact .head _
    have hnext := nextString_terminated kv (pack env ++ 0 :: rest)
    rw [← List.append_assoc, ← pack_cons, hcp] at hnext
    rw [hcp, envStrings, hnext]
    · simp only [ih fun kv' hkv' => h kv' (.tail _ hkv')]
    · simpa using hc

theorem parseBlock_pack (b : Block) :
    parseBlock (pack b.strings) = ⟨b.cwd, b.env.take 63, b.args.take 255⟩ := by
  have hpack : pack b.strings = b.cwd.terminated ++ (pack b.env ++ 0 :: pack b.args) := by
    simp [Block.strings, pack_append, CString.terminated]
  simp only [parseBlock, hpack, nextString_terminated, envStrings_pack b.env_ne, List.drop_succ_cons,
    List.drop_zero, unpack_pack]

theorem dropLast_pack (s : CString) (ss : List CString) :
    (pack (s :: ss)).dropLast ++ [0] = pack (s :: ss) :=
  List.dropLast_append_getLast? 0 (getLast?_pack s ss)

theorem keyValue_ne_nil (hkey : ascii (key ++ "=") = c :: cs) (hc : c ≠ 0) (hsize : 2 ≤ size) :
    (keyValue size key v).bytes ≠ [] := by
  obtain ⟨n, rfl⟩ : ∃ n, size = n + 2 := ⟨size - 2, by omega⟩
  simp [keyValue, CString.ofBuffer, cstr, hkey, hc]

def Elevate.block (e : Elevate) : Block where
  cwd := e.cwd.getD (.ofString "/")
  env := e.env
  args := e.program
  env_ne kv hkv := by
    have hword {size : Nat} {v : Bytes} (key : String) (h2 : 2 ≤ size)
        (hkey : (ascii (key ++ "=")).head?.getD 0 ≠ 0) : (keyValue size key v).bytes ≠ [] := by
      cases hcs : ascii (key ++ "=") with
      | nil => simp [hcs] at hkey
      | cons c cs => exact keyValue_ne_nil hcs (by simpa [hcs] using hkey) h2
    simp only [Elevate.env, Elevate.look, List.mem_append, Option.mem_toList,
      Option.map_eq_some_iff] at hkv
    obtain ((⟨v, -, rfl⟩ | ⟨v, -, rfl⟩) | ⟨v, -, rfl⟩) | hlook := hkv
    · exact hword "WINEPREFIX" (by decide) (by decide)
    · exact hword "LANG" (by decide) (by decide)
    · exact hword "WINEDEBUG" (by decide) (by decide)
    · split at hlook
      · simp only [List.mem_append, Option.mem_toList, Option.map_eq_some_iff] at hlook
        obtain (⟨v, -, rfl⟩ | ⟨v, -, rfl⟩) | ⟨v, -, rfl⟩ := hlook
        · exact hword "SG_USER_APPS_LIGHT" (by decide) (by decide)
        · exact hword "SG_USER_SYSTEM_LIGHT" (by decide) (by decide)
        · exact hword "SG_USER_ACCENT" (by decide) (by decide)
      · cases hlook

theorem Elevate.payload_eq {e : Elevate} {blob : Bytes} (h : e.payload = some blob) :
    blob = pack e.block.strings ∧ blob.length ≤ maxBlob := by
  rw [payload] at h
  split at h
  · cases h
  · rw [foldlM_put _ (Nat.zero_le _)] at h
    split at h
    · cases h
    · next hfit =>
      obtain rfl := Option.some.inj h
      exact ⟨rfl, Nat.not_lt.mp hfit⟩

theorem Elevate.length_env_le (e : Elevate) : e.env.length ≤ 63 := by
  have hopt {α : Type} (o : Option α) : o.toList.length ≤ 1 := by cases o <;> simp
  have hlook : (if e.options.1 then e.look else []).length ≤ 3 := by
    split
    · have h₁ := hopt (e.appsLight.map fun v =>
        keyValue 64 "SG_USER_APPS_LIGHT" (decimal (if v = 0 then 0 else 1)))
      have h₂ := hopt (e.systemLight.map fun v =>
        keyValue 64 "SG_USER_SYSTEM_LIGHT" (decimal (if v = 0 then 0 else 1)))
      have h₃ := hopt (e.accent.map fun v => keyValue 64 "SG_USER_ACCENT" (hex 8 v))
      simp only [Elevate.look, List.length_append]
      omega
    · exact Nat.zero_le _
  have h₁ := hopt (e.winePrefix.map fun v => keyValue 4200 "WINEPREFIX" v.bytes)
  have h₂ := hopt (e.lang.map fun v => keyValue 4200 "LANG" v.bytes)
  have h₃ := hopt ((e.debug.filter fun v => !v.bytes.isEmpty).map fun v =>
    keyValue 600 "WINEDEBUG" v.bytes)
  simp only [Elevate.env, List.length_append]
  omega

theorem runOptions_dash (o : RunOptions) (rest : List CString) :
    runOptions o (.ofString "--" :: rest) = (o, rest) := by
  cases rest with
  | nil => rw [runOptions, if_pos rfl]
  | cons v rest =>
    rw [runOptions, if_neg (by decide), if_neg (by decide), if_neg (by decide), if_pos rfl]

theorem strtoll_decimal (x : UInt32) : strtoll (CString.decimal x.toNat).bytes = x.toNat := by
  have hx := x.toNat_lt
  have : strtoll (signedDecimal x.toNat ++ []) = x.toNat :=
    strtoll_signedDecimal (by omega) (by omega) (by simp)
  simpa [CString.decimal, signedDecimal] using this

theorem runOptions_launchArgv (o : RunOptions) (cfg : Config) (control : CString) (uid : UInt32)
    (args : List CString) :
    runOptions o (launchArgv cfg control uid args).tail =
      ({ o with control := some control, uid := uid.toNat }, args.take 253) := by
  change runOptions o (.ofString "--control" :: control :: .ofString "--uid" ::
    .decimal uid.toNat :: .ofString "--" :: args.take 253) = _
  rw [runOptions, if_pos rfl, runOptions, if_neg (by decide), if_pos rfl, runOptions_dash,
    strtoll_decimal]

theorem runOptions_spawnArgv (o : RunOptions) (control : CString) (requester uid : UInt32)
    (args : List CString) :
    runOptions o ([.ofString "--control", control, .ofString "--uid", .decimal requester.toNat,
        .ofString "--as-uid", .decimal uid.toNat, .ofString "--"] ++ args) =
      (⟨some control, requester.toNat, uid.toNat⟩, args) := by
  change runOptions o (.ofString "--control" :: control :: .ofString "--uid" ::
    .decimal requester.toNat :: .ofString "--as-uid" :: .decimal uid.toNat ::
      .ofString "--" :: args) = _
  rw [runOptions, if_pos rfl, runOptions, if_neg (by decide), if_pos rfl, runOptions,
    if_neg (by decide), if_neg (by decide), if_pos rfl, runOptions_dash, strtoll_decimal,
    strtoll_decimal]

def lastEntry (key : String) (ok : CString → Bool) (env : List CString) : Option CString :=
  (env.filterMap fun kv => (entryFor kv key).filter ok).getLast?

theorem foldl_honour {table : List (String × (CString → Bool))} (h : (table.map Prod.fst).Nodup)
    (e : Env) (kv : CString) (k : String) :
    table.foldl (honour kv) e k =
      match table.lookup k with
      | some ok => ((entryFor kv k).filter ok).or (e k)
      | none => e k := by
  induction table generalizing e with
  | nil => rfl
  | cons row table ih =>
    obtain ⟨key, ok⟩ := row
    rw [List.map_cons, List.nodup_cons] at h
    rw [List.foldl_cons, ih h.2, honour]
    by_cases hk : k = key
    · subst hk
      have hnone : table.lookup k = none := by
        rw [List.lookup_eq_none_iff]
        intro p hp
        have hmem : p.1 ∈ table.map Prod.fst := List.mem_map_of_mem hp
        simpa using (ne_of_mem_of_not_mem hmem h.1).symm
      rw [hnone, List.lookup_cons_self]
      cases hv : (entryFor kv k).filter ok <;> simp [hv, Env.set]
    · have hbeq : (k == key) = false := by simpa using hk
      rw [List.lookup_cons, hbeq]
      cases (entryFor kv key).filter ok <;> simp only [Env.set, hk, if_false]

theorem foldl_launchEntry (errfd : Bool) (env : List CString) (e : Env) (k : String) :
    env.foldl (launchEntry errfd) e k =
      match (honoured errfd).lookup k with
      | some ok => (lastEntry k ok env).or (e k)
      | none => e k := by
  induction env using List.reverseRecOn with
  | nil => cases (honoured errfd).lookup k <;> rfl
  | append_singleton env kv ih =>
    rw [List.foldl_append, List.foldl_cons, List.foldl_nil, launchEntry,
      foldl_honour (by simp [honoured])]
    cases hok : (honoured errfd).lookup k with
    | none => simpa [hok] using ih
    | some ok =>
      simp only [hok] at ih ⊢
      rw [ih]
      cases hv : (entryFor kv k).filter ok <;>
        simp [lastEntry, List.filterMap_append, hv]

def personName (db : Accounts) (uid : UInt32) : Option CString :=
  ((db.getpwuid uid).filter fun rpw => !rpw.name.bytes.isEmpty).map Passwd.name

def documentedEnv (m : Machine) (db : Accounts) (cfg : Config) (display : Nat) (uid : UInt32)
    (errfd : Bool) (env : List CString) : Env
  | "PATH" => some path
  | "SG_IN_BROKER" => some (.ofString "1")
  | "HOME" => (db.getpwnam cfg.systemUser).map fun pw =>
    if pw.dir.bytes.isEmpty then .ofString "/var/lib/stained-glass" else pw.dir
  | "USER" => (personName db uid).or ((db.getpwnam cfg.systemUser).map Passwd.name)
  | "LOGNAME" => (personName db uid).or ((db.getpwnam cfg.systemUser).map Passwd.name)
  | "LANG" => some ((lastEntry "LANG" localeOk env).getD (.ofString "C.UTF-8"))
  | "WINEPREFIX" => lastEntry "WINEPREFIX" (fun _ => true) env
  | "WINEDEBUG" => lastEntry "WINEDEBUG" (fun v => errfd && debugChannelsOk v) env
  | "DISPLAY" => some (.ofBuffer (58 :: decimal display))
  | "XAUTHORITY" => some m.cookie
  | "SG_WINSTATION" => some (.ofBuffer (ascii "WinSta0\\sg-elevated-" ++ decimal display))
  | "SG_SESSION_UID" => some (.ofBuffer (signedDecimal uid.toNat))
  | "SG_ELEVATED_IDENTITY" => some (.ofString "1")
  | _ => none

theorem launchEnv_apply (pw : Option Passwd) (errfd : Bool) (env : List CString) (k : String) :
    launchEnv pw errfd env k =
      match k with
      | "PATH" => some path
      | "SG_IN_BROKER" => some (.ofString "1")
      | "HOME" => pw.map fun pw =>
        if pw.dir.bytes.isEmpty then .ofString "/var/lib/stained-glass" else pw.dir
      | "USER" => pw.map Passwd.name
      | "LOGNAME" => pw.map Passwd.name
      | "LANG" => some ((lastEntry "LANG" localeOk env).getD (.ofString "C.UTF-8"))
      | "WINEPREFIX" => lastEntry "WINEPREFIX" (fun _ => true) env
      | "SG_USER_APPS_LIGHT" => lastEntry "SG_USER_APPS_LIGHT" (fun _ => true) env
      | "SG_USER_SYSTEM_LIGHT" => lastEntry "SG_USER_SYSTEM_LIGHT" (fun _ => true) env
      | "SG_USER_ACCENT" => lastEntry "SG_USER_ACCENT" (fun _ => true) env
      | "WINEDEBUG" => lastEntry "WINEDEBUG" (fun v => errfd && debugChannelsOk v) env
      | _ => none := by
  generalize hL : launchEnv pw errfd env k = L
  unfold launchEnv at hL
  rw [foldl_launchEntry] at hL
  split <;> rw [← hL]
  case h_12 =>
    have hbeq (s : String) (h : k ≠ s) : (k == s) = false := beq_eq_false_iff_ne.mpr h
    simp only [imp_false] at *
    cases pw <;> simp [honoured, List.lookup, Env.set, Env.empty, *]
  all_goals cases pw <;> simp [honoured, List.lookup, Env.set, Env.empty]

theorem Env.setPerson_apply (e : Env) (pw : Option Passwd) (k : String) :
    e.setPerson pw k =
      if k = "USER" ∨ k = "LOGNAME" then
        ((pw.filter fun rpw => !rpw.name.bytes.isEmpty).map Passwd.name).or (e k)
      else e k := by
  cases pw with
  | none => simp [setPerson]
  | some rpw =>
    rw [setPerson]
    by_cases h : rpw.name.bytes.isEmpty
    · rw [if_pos h, Option.filter_some_neg (by simp [h])]
      simp
    · rw [if_neg h, Option.filter_some_pos (by simp [h])]
      by_cases hl : k = "LOGNAME" <;> by_cases hu : k = "USER" <;> simp [hl, hu, Env.set]

theorem displayEnv_apply (m : Machine) (db : Accounts) (display : Nat) (uid : UInt32) (e : Env)
    (k : String) :
    displayEnv m db display uid.toNat false e k =
      match k with
      | "DISPLAY" => some (.ofBuffer (58 :: decimal display))
      | "XAUTHORITY" => some m.cookie
      | "WAYLAND_DISPLAY" => none
      | "SG_WINSTATION" => some (.ofBuffer (ascii "WinSta0\\sg-elevated-" ++ decimal display))
      | "SG_SESSION_UID" => some (.ofBuffer (signedDecimal uid.toNat))
      | "SG_ELEVATED_IDENTITY" => some (.ofString "1")
      | "USER" => (personName db uid).or (e "USER")
      | "LOGNAME" => (personName db uid).or (e "LOGNAME")
      | "SG_USER_APPS_LIGHT" => none
      | "SG_USER_SYSTEM_LIGHT" => none
      | "SG_USER_ACCENT" => none
      | k => e k := by
  have huid : UInt32.ofNat (uid.toNat : Int).toNat = uid := by simp
  generalize hL : displayEnv m db display uid.toNat false e k = L
  simp only [displayEnv, Bool.false_eq_true, if_false, huid] at hL
  rw [← hL]
  split
  case h_12 =>
    simp only [imp_false] at *
    simp [Env.set, Env.unset, Env.setPerson_apply, *]
  all_goals simp [Env.set, Env.unset, Env.setPerson_apply, personName]

theorem displayEnv_launchEnv (m : Machine) (db : Accounts) (cfg : Config) (display : Nat)
    (uid : UInt32) (errfd : Bool) (env : List CString) (e : Env)
    (he : ∀ k ≠ "SG_ELEVATED_STATUS_FD",
      e k = launchEnv (db.getpwnam cfg.systemUser) errfd env k) :
    displayEnv m db display uid.toNat false (e.unset "SG_ELEVATED_STATUS_FD") =
      documentedEnv m db cfg display uid errfd env := by
  have he' (k : String) : e.unset "SG_ELEVATED_STATUS_FD" k =
      launchEnv (db.getpwnam cfg.systemUser) errfd env k := by
    by_cases hk : k = "SG_ELEVATED_STATUS_FD"
    · subst hk
      simp [Env.unset, launchEnv_apply]
    · simp [Env.unset, hk, he]
  funext k
  rw [displayEnv_apply]
  unfold documentedEnv
  split
  case h_12 =>
    rw [he', launchEnv_apply]
    split <;> simp_all
  all_goals simp [he', launchEnv_apply]

def Carried (m : Machine) (x : Exec) (args : List CString) : Prop :=
  x.argv = args ∨
    ∃ p rest, args = .ofString "wine" :: p :: rest ∧ m.isConsoleProgram (prefixDir x.env) p ∧
      x.argv = .ofString "wine" :: .ofString "wineconsole" :: p :: rest

theorem carried_consoleArgs {x : Exec} (h : x.argv = consoleArgs m x.env args) : Carried m x args := by
  rw [Carried, h]
  match args with
  | [] => exact .inl rfl
  | [_] => exact .inl rfl
  | a :: p :: rest =>
    rw [consoleArgs]
    split
    · next hwine => exact .inr ⟨p, rest, by rw [hwine.1], hwine.2, by rw [hwine.1]⟩
    · exact .inl rfl

/-- The directory asked for, when there is one that can be entered; in place of
the root the system directory. -/
def InDirectory (m : Machine) (x : Exec) (want : CString) : Prop :=
  ∀ dir, want.bytes ≠ [] → m.chdir m.brokerDir want = some dir →
    x.dir = dir ∨ dir = root ∧ x.dir = startDir m x.env dir

theorem inDirectory_startDir {m : Machine} {x : Exec} {want dir : CString}
    (hdir : ∀ d, want.bytes ≠ [] → m.chdir m.brokerDir want = some d → dir = d)
    (h : x.dir = startDir m x.env dir) : InDirectory m x want := by
  intro d hne hd
  obtain rfl := hdir d hne hd
  by_cases hroot : dir = root
  · exact .inr ⟨hroot, h⟩
  · rw [startDir, if_neg hroot] at h
    exact .inl h

section Elevated

variable {m : Machine} {db : Accounts} {cfg : Config} {euid uid : UInt32} {control : CString}
  {errfd allowed : Bool} {x : Exec}

theorem elevatedRun_launchArgv (hargs : args ≠ []) : elevatedRun m db euid e dir (launchArgv cfg control uid args) =
      m.display.map fun display => let e := displayEnv m db display uid.toNat false (e.unset "SG_ELEVATED_STATUS_FD")
        ⟨consoleArgs m e (args.take 253), startDir m e dir, e, euid⟩ := by
  rw [elevatedRun, runOptions_launchArgv]
  simp only [reduceCtorEq, show ¬ (uid.toNat : Int) < 0 by omega, List.take_eq_nil_iff, hargs,
    show (253 : Nat) ≠ 0 by decide, or_self, if_false, show (-1 : Int) < 0 by decide, if_true,
    show ¬ (0 : Int) ≤ -1 by decide, decide_false]
  cases m.display <;> rfl

theorem elevateRequest_pack (b : Block) :
    elevateRequest m db cfg euid (pack b.strings) allowed control uid errfd =
      if maxBlob < (pack b.strings).length ∨
          b.cwd ∈ ["@logon", "@launch", "@shadow", "@polkit"].map CString.ofString ∨
          b.args = [] ∨ !allowed then none
      else launch m db cfg euid ⟨b.cwd, b.env.take 63, b.args.take 255⟩ control uid errfd := by
  have hpack : pack b.strings ≠ [] := by
    rw [Block.strings, List.cons_append, pack_cons]
    exact List.append_ne_nil_of_left_ne_nil b.cwd.terminated_ne_nil _
  have hparse : parseBlock ((pack b.strings).dropLast ++ [0]) =
      ⟨b.cwd, b.env.take 63, b.args.take 255⟩ := by
    rw [← parseBlock_pack, Block.strings, List.cons_append, dropLast_pack]
  simp only [elevateRequest, hparse, hpack, false_or, List.take_eq_nil_iff,
    show (255 : Nat) ≠ 0 by decide]
  split
  · next hlong => rw [if_pos (.inl hlong)]
  · next hlong =>
    split
    · next hcwd => rw [if_pos (.inr (.inl hcwd))]
    · next hcwd => simp only [hlong, hcwd, false_or]

theorem launch_run {p : Parsed} (hargs : p.args ≠ []) (hfit : p.args.length ≤ 253)
    (h : launch m db cfg euid p control uid errfd = some x) :
    Carried m x p.args ∧ InDirectory m x p.cwd ∧ x.uid = euid ∧
      if control.bytes = [] then x.env = launchEnv (db.getpwnam cfg.systemUser) errfd p.env
      else ∃ display, x.env = documentedEnv m db cfg display uid errfd p.env := by
  rw [launch] at h
  simp only [List.isEmpty_iff] at h
  split at h
  · next hcontrol =>
    cases h
    rw [if_pos hcontrol]
    refine ⟨.inl rfl, fun d hne hd => .inl ?_, rfl, rfl⟩
    simp [hne, hd]
  · next hcontrol =>
    rw [elevatedRun_launchArgv hargs, List.take_of_length_le hfit] at h
    obtain ⟨display, -, rfl⟩ := Option.map_eq_some_iff.mp h
    rw [if_neg hcontrol]
    refine ⟨carried_consoleArgs rfl, inDirectory_startDir ?_ rfl, rfl, display, ?_⟩
    · intro d hne hd
      simp [hne, hd]
    · refine displayEnv_launchEnv m db cfg display uid errfd p.env _ ?_
      intro k hk
      cases m.statusFd with
      | none => rfl
      | some fd => simp [Env.set, hk]

end Elevated

def displayVariables : List String :=
  ["DISPLAY", "XAUTHORITY", "WAYLAND_DISPLAY", "SG_WINSTATION", "XDG_RUNTIME_DIR",
    "SG_SYSTEM_USER"]

theorem sessionLine_apply (e : Env) (line : CString) (hk : k ∉ displayVariables) : sessionLine e line k = e k := by
  unfold sessionLine
  cases cut 61 line.bytes with
  | none => rfl
  | some kv =>
    cases hfind : ["DISPLAY", "WAYLAND_DISPLAY", "XDG_RUNTIME_DIR"].find? fun k => ascii k = kv.1 with
    | none => simp only [hfind]
    | some key =>
      have hne : k ≠ key := by
        rintro rfl
        have hmem := List.mem_of_find?_eq_some hfind
        simp only [List.mem_cons, List.not_mem_nil, or_false] at hmem
        obtain rfl | rfl | rfl := hmem <;> exact hk (by decide)
      simp only [hfind, Env.set, hne, if_false]

theorem foldl_sessionLine_apply (lines : List CString) (e : Env)
    (hk : k ∉ displayVariables) : lines.foldl sessionLine e k = e k := by
  induction lines generalizing e with
  | nil => rfl
  | cons line lines ih => rw [List.foldl_cons, ih, sessionLine_apply e line hk]

theorem displayEnv_other (m : Machine) (db : Accounts) (display : Nat) (uid : Int) (e : Env)
    (hk : k ∉ displayVariables) : displayEnv m db display uid true e k = e k := by
  simp only [displayVariables, List.mem_cons, List.not_mem_nil, or_false, not_or] at hk
  simp [displayEnv, Env.set, Env.unset, hk]

section Spawned

variable {m : Machine} {db : Accounts} {cfg : Config} {x : Exec}

theorem elevatedRun_spawn {e : Env} {dir program control : CString} {requester uid : UInt32}
    {args : List CString}
    (h : elevatedRun m db 0 e dir ([program, .ofString "--control", control, .ofString "--uid",
      .decimal requester.toNat, .ofString "--as-uid", .decimal uid.toNat, .ofString "--"] ++ args) =
        some x) :
    ∃ display, x.env = displayEnv m db display requester.toNat true
        (e.unset "SG_ELEVATED_STATUS_FD") ∧
      x.argv = consoleArgs m x.env args ∧ x.dir = startDir m x.env dir ∧ x.uid = uid := by
  have huid : UInt32.ofNat (uid.toNat : Int).toNat = uid := by simp
  rw [elevatedRun, List.cons_append, List.tail_cons, runOptions_spawnArgv] at h
  simp only [huid, show ¬ (uid.toNat : Int) < 0 by omega, if_false,
    show (0 : Int) ≤ uid.toNat by omega, decide_true] at h
  split at h
  · cases h
  split at h
  · next uid' display haccount hdisplay =>
    cases h
    refine ⟨display, rfl, rfl, rfl, ?_⟩
    split at haccount
    · cases haccount
    split at haccount
    · next pw sys hpw hsys =>
      split at haccount
      · cases haccount
      · exact (Option.some.inj haccount).symm.trans (db.uid_of_getpwuid hpw)
    · cases haccount
  · cases h

theorem spawnExec_run {pw : Passwd} {f : SpawnFields} {requester : UInt32}
    (hrequester : f.requester = .decimal requester.toNat) (hargs : f.args.length ≤ 254)
    (h : spawnExec m db cfg pw f = some x) :
    x.uid = pw.uid ∧ Carried m x (cfg.launchWine :: f.args) ∧ InDirectory m x f.cwd ∧
      ∀ k ∉ displayVariables, x.env k = accountEnv cfg pw f.ticket k := by
  have hcwd (d other : CString) (hne : f.cwd.bytes ≠ []) (hd : m.chdir m.brokerDir f.cwd = some d) :
      (if f.cwd.bytes.isEmpty then none else m.chdir m.brokerDir f.cwd).getD other = d := by
    simp [hne, hd]
  rw [spawnExec] at h
  simp only at h
  split at h
  · have htake : (cfg.launchWine :: f.args).take 255 = cfg.launchWine :: f.args :=
      List.take_of_length_le (by rw [List.length_cons]; omega)
    rw [hrequester, htake] at h
    obtain ⟨display, henv, hargv, hdir, huid⟩ := elevatedRun_spawn h
    refine ⟨huid, carried_consoleArgs hargv, inDirectory_startDir (fun d => hcwd d _) hdir, ?_⟩
    intro k hk
    rw [henv, displayEnv_other _ _ _ _ _ hk]
    by_cases hfd : k = "SG_ELEVATED_STATUS_FD"
    · subst hfd
      simp [Env.unset, accountEnv, Env.set, Env.empty]
    · have hsystem : k ≠ "SG_SYSTEM_USER" := by
        rintro rfl
        exact hk (by decide)
      simp [Env.unset, Env.set, hfd, hsystem]
  · cases h
    refine ⟨rfl, .inl rfl, fun d hne hd => .inl (hcwd d _ hne hd), ?_⟩
    intro k hk
    change m.sessionEnv.foldl sessionLine _ k = _
    rw [foldl_sessionLine_apply _ _ hk]
    cases m.runtimeDir with
    | false => rfl
    | true =>
      have hruntime : k ≠ "XDG_RUNTIME_DIR" := by
        rintro rfl
        exact hk (by decide)
      simp [Env.set, hruntime]

theorem handleLaunch_spawn {i : LaunchInput} {e : Launched} {pw : Passwd}
    {f : SpawnFields} (h : (handleLaunch db cfg s i).2 = some e) (hrun : e.run = some (pw, f)) :
    i.args ≠ [] ∧ f.args = i.args.take 254 ∧ f.cwd = (envValue "LAUNCH_CWD=" i.env).getD .empty ∧
      f.requester = .decimal i.peer.toNat ∧ envValue "LAUNCH_TICKET=" i.env = some f.ticket ∧
      db.getpwuid pw.uid = some pw := by
  rw [handleLaunch] at h
  split at h
  · cases h
  next name hname =>
  split at h
  · next hargs =>
    split at h
    · cases h
    simp only at h
    split at h
    · cases h
    split at h
    · cases h
    split at h
    · cases h
    next blob hblob =>
    cases h
    obtain ⟨rfl, -⟩ := Spawn.blob_eq_some hblob
    rw [monitorSpawn] at hrun
    split at hrun
    · cases hrun
    next pw' hpw =>
    split at hrun
    · cases hrun
    rw [parseSpawn_pack _ _ _ _ hargs.2] at hrun
    cases hrun
    exact ⟨hargs.2, rfl, rfl, rfl, hname, by rw [db.uid_of_getpwuid hpw, hpw]⟩
  · cases h

end Spawned

/-- A request is refused, or the program gets the arguments, the directory and the environment meant. -/
theorem request_carried (m : Machine) (db : Accounts) (cfg : Config) :
    -- what `sg-elevate` sends is the block of its program
    (∀ (e : Elevate) (blob : Bytes), e.payload = some blob →
      blob = pack e.block.strings ∧ e.block.env.length ≤ 63) ∧
    (∀ (b : Block) (euid uid : UInt32) (control : CString) (allowed errfd : Bool) (x : Exec),
      b.args.length ≤ 253 → b.env.length ≤ 63 →
      elevateRequest m db cfg euid (pack b.strings) allowed control uid errfd = some x →
      allowed ∧ b.args ≠ [] ∧ Carried m x b.args ∧ InDirectory m x b.cwd ∧ x.uid = euid ∧
        -- in the scripted mode there is no compositor, and no display either
        if control.bytes = [] then x.env = launchEnv (db.getpwnam cfg.systemUser) errfd b.env
        else ∃ display, x.env = documentedEnv m db cfg display uid errfd b.env) ∧
    (∀ (b : Block) (s : Store) (peer euid : UInt32) (now : Int) (control : CString) (x : Exec),
      b.args.length ≤ 254 → b.env.length ≤ 63 →
      (launchRequest m db cfg s (pack b.strings) peer euid now control).2 = some x →
      b.args ≠ [] ∧ Carried m x (cfg.launchWine :: b.args) ∧
        InDirectory m x ((envValue "LAUNCH_CWD=" b.env).getD .empty) ∧
        ∃ pw ticket, envValue "LAUNCH_TICKET=" b.env = some ticket ∧ db.getpwuid x.uid = some pw ∧
          ∀ k ∉ displayVariables, x.env k = accountEnv cfg pw ticket k) := by
  refine ⟨fun e blob h => ⟨(e.payload_eq h).1, e.length_env_le⟩, ?_, ?_⟩
  · intro b euid uid control allowed errfd x hargs henv h
    rw [elevateRequest_pack] at h
    split at h
    · cases h
    next hgo =>
    simp only [not_or, Bool.not_eq_true', Bool.not_eq_false] at hgo
    rw [List.take_of_length_le henv, List.take_of_length_le (by omega)] at h
    exact ⟨hgo.2.2.2, hgo.2.2.1, launch_run hgo.2.2.1 hargs h⟩
  · intro b s peer euid now control x hargs henv h
    rw [launchRequest, Block.strings, List.cons_append, dropLast_pack, ← List.cons_append,
      ← Block.strings, parseBlock_pack, List.take_of_length_le henv,
      List.take_of_length_le (by omega)] at h
    simp only at h
    split at h
    · cases h
    split at h
    · cases h
    obtain ⟨e, he, hbind⟩ := Option.bind_eq_some_iff.mp h
    obtain ⟨⟨pw, f⟩, hrun, hexec⟩ := Option.bind_eq_some_iff.mp hbind
    obtain ⟨hne, hfargs, hfcwd, hfrequester, hticket, hpw⟩ := handleLaunch_spawn he hrun
    simp only at hne hfargs hfcwd hfrequester hticket hexec
    rw [List.take_of_length_le hargs] at hfargs
    obtain ⟨huid, hcarried, hdir, hvars⟩ :=
      spawnExec_run hfrequester (by rw [hfargs]; exact hargs) hexec
    rw [hfargs] at hcarried
    rw [hfcwd] at hdir
    exact ⟨hne, hcarried, hdir, pw, f.ticket, hticket, huid ▸ hpw, hvars⟩

section Samples

def desk : Machine where
  chdir _ dir := some dir
  isConsoleProgram _ p := p = .ofString "cmd"
  display := some 0
  cookie := .empty
  statusFd := none
  brokerDir := root
  ownDisplay := false
  runtimeDir := true
  sessionEnv := []

def askFor (args : List CString) : Block where
  cwd := .ofString "/tmp"
  env := []
  args := args
  env_ne := nofun

theorem elevateRequest_askFor (args : List CString) (hne : args ≠ [])
    (hfit : (pack args).length ≤ 1000) :
    ∃ x, elevateRequest desk users {} 999 (pack (askFor args).strings) true (.ofString "c") 1000
        false = some x ∧ x.argv = consoleArgs desk x.env ((args.take 255).take 253) := by
  have hlong : ¬ maxBlob < (pack (askFor args).strings).length := by
    have hpack : pack (askFor args).strings =
        pack [.ofString "/tmp", .empty] ++ pack args := pack_append [_, _] args
    have hhead : (pack [.ofString "/tmp", .empty]).length = 6 := by decide
    have hmax : maxBlob = 65536 := rfl
    rw [hpack, List.length_append]
    omega
  have hcwd : (askFor args).cwd ∉
      ["@logon", "@launch", "@shadow", "@polkit"].map CString.ofString := by
    change CString.ofString "/tmp" ∉ _
    decide
  have hargs : ¬ ((askFor args).args = [] ∨ (!true) = true) := by simpa [askFor] using hne
  rw [elevateRequest_pack, if_neg (not_or_intro hlong (not_or_intro hcwd hargs)), launch]
  simp only [show (CString.ofString "c").bytes.isEmpty = false by decide, Bool.false_eq_true,
    if_false]
  rw [elevatedRun_launchArgv (by simpa [askFor] using hne)]
  exact ⟨_, rfl, rfl⟩

theorem request_not_carried :
    (∃ x, elevateRequest desk users {} 999
        (pack (askFor [.ofString "wine", .ofString "cmd"]).strings) true (.ofString "c") 1000 false =
          some x ∧ x.argv = [.ofString "wine", .ofString "wineconsole", .ofString "cmd"]) ∧
    ∃ x, elevateRequest desk users {} 999
        (pack (askFor (List.replicate 253 .empty ++ [.ofString "x"])).strings) true (.ofString "c")
          1000 false = some x ∧ x.argv = List.replicate 253 .empty := by
  constructor
  · exact elevateRequest_askFor [.ofString "wine", .ofString "cmd"] (by decide) (by decide)
  · have hfit : (pack (List.replicate 253 .empty ++ [.ofString "x"])).length ≤ 1000 := by
      rw [pack_append, List.length_append, length_pack_replicate]
      decide
    have hne : List.replicate 253 CString.empty ++ [.ofString "x"] ≠ [] := List.concat_ne_nil _ _
    obtain ⟨x, hx, hargv⟩ := elevateRequest_askFor _ hne hfit
    refine ⟨x, hx, ?_⟩
    rw [hargv, List.take_take, Nat.min_eq_left (by decide), List.take_left' List.length_replicate]
    rfl

end Samples

end StainedGlass.Broker
