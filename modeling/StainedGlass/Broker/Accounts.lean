import StainedGlass.Lib.Bytes

/-! The account database and the settings of `broker/sg-brokerd.c`. -/

namespace StainedGlass.Broker

open Lib

structure Passwd where
  name : CString
  uid : UInt32
  gid : UInt32
  dir : CString
  shell : CString
  deriving DecidableEq

structure Group where
  gid : UInt32
  mem : List CString
  deriving DecidableEq

structure Accounts where
  getpwnam : CString → Option Passwd
  getpwuid : UInt32 → Option Passwd
  getgrnam : CString → Option Group
  name_of_getpwnam : getpwnam n = some pw → pw.name = n
  uid_of_getpwuid : getpwuid u = some pw → pw.uid = u

structure Config where
  adminGroup : CString := .ofString "sg-admins"
  systemUser : CString := .ofString "sgsystem"
  polkitRespond : CString := .ofString "/usr/libexec/stained-glass/sg-polkit-respond"
  elevatedRun : CString := .ofString "/usr/libexec/stained-glass/sg-elevated-run"
  launchWine : CString := .ofString "/opt/wine-sg/bin/wine"
  launchPrefix : CString := .ofString "/var/lib/stained-glass/prefix"

def maxField : Nat := 256
def maxBlob : Nat := 65536

def isAdminName (db : Accounts) (cfg : Config) (name : CString) : Bool :=
  match db.getgrnam cfg.adminGroup, db.getpwnam name with
  | some gr, some pw => pw.gid = gr.gid || name ∈ gr.mem
  | _, _ => false

def isSystemUid (db : Accounts) (cfg : Config) (uid : UInt32) : Bool :=
  (db.getpwnam cfg.systemUser).any (·.uid = uid)

def isAlnum (c : UInt8) : Bool :=
  (97 ≤ c && c ≤ 122) || (65 ≤ c && c ≤ 90) || (48 ≤ c && c ≤ 57)

def plainName (s : CString) : Bool :=
  !s.bytes.isEmpty && s.bytes.length ≤ 64 &&
    s.bytes.all fun c => isAlnum c || c ∈ ascii "-_."

end StainedGlass.Broker
