import Mathlib
import StainedGlass.Firewall.Config
import StainedGlass.Lib.Nft

/-! Deciding, and the nftables table, in `bin/sg-firewall`. -/

namespace StainedGlass.Firewall

open Lib

inductive Kind where
  | windows
  | linuxUser
  | system
  | unknown
  deriving DecidableEq

structure Listener where
  proto : Proto
  port : Nat
  inode : Nat
  program : Option Str
  kind : Kind
  ownerUid : Int
  port_le : port ≤ 65535

def Listener.named (l : Listener) : Option Str := l.program.filter (· ≠ [])

def ephemeral : Nat := 32768

def ruleMatches (u : Unicode) (r : Rule) (l : Listener) : Bool :=
  if r.proto ≠ none ∧ r.proto ≠ some l.proto then false
  else if !portIn r.ports l.port then false
  else
    match r.program with
    | none => false
    | some program => (l.program.map (programKey u)) = some (programKey u program)

def groupRules (u : Unicode) (conf : Config) : List Rule :=
  groupOrder.flatMap fun g =>
    let profiles := conf.groups g
    g.ports.filterMap fun (proto, text) =>
      match parsePorts u text with
      | .ok ports =>
        some ⟨str "group:" ++ g.text, profiles ≠ ∅, .allow, profiles, some proto, ports,
          some (str "@system"), g.title, str "built-in"⟩
      | .error _ => none

def knownProgram (u : Unicode) (rules : List Rule) (program : Str) : Bool :=
  rules.any fun r => (r.program.filter (· ≠ [])).any fun p => programKey u p = programKey u program

abbrev Sets := Profile → Proto → List (Nat × Nat)

def Sets.add (s : Sets) (profiles : Finset Profile) (protos : List Proto)
    (ranges : List (Nat × Nat)) : Sets := fun p proto =>
  if p ∈ profiles ∧ proto ∈ protos then ranges.foldl (fun rs r => rs.insert r) (s p proto)
  else s p proto

inductive State where
  | allowed
  | ask
  | blocked
  deriving DecidableEq

structure Decision where
  listener : Listener
  allowed : Finset Profile
  state : State

structure Plan where
  opens : Sets
  blocks : Sets
  decisions : List Decision
  ask : List Listener

def Plan.empty : Plan := ⟨fun _ _ => [], fun _ _ => [], [], []⟩

def Rule.ranges (r : Rule) : List (Nat × Nat) :=
  match r.ports with
  | some p => p.list.map fun x => (x.lo, x.hi)
  | none => [(1, 65535)]

def Rule.protos (r : Rule) : List Proto :=
  match r.proto with
  | some proto => [proto]
  | none => [.tcp, .udp]

def portRule (plan : Plan) (r : Rule) : Plan :=
  if !r.enabled ∨ r.program.isSome then plan
  else
    match r.action with
    | .allow => { plan with opens := plan.opens.add r.profiles r.protos r.ranges }
    | .block => { plan with blocks := plan.blocks.add r.profiles r.protos r.ranges }

def groupAllowed (groups : List Rule) (l : Listener) : Finset Profile :=
  groups.foldl (fun allowed r =>
    if r.enabled ∧ r.proto = some l.proto ∧ portIn r.ports l.port then allowed ∪ r.profiles
    else allowed) ∅

def programRules (u : Unicode) (rules : List Rule) (l : Listener)
    (sets : Finset Profile × Finset Profile) : Finset Profile × Finset Profile :=
  rules.foldl (fun (allowed, blocked) r =>
    if r.enabled ∧ ruleMatches u r l then
      match r.action with
      | .allow => (allowed ∪ r.profiles, blocked)
      | .block => (allowed, blocked ∪ r.profiles)
    else (allowed, blocked)) sets

def allowedOn (u : Unicode) (groups rules : List Rule) (l : Listener) : Finset Profile :=
  let allowed := if l.kind = .system then groupAllowed groups l else ∅
  let (allowed, blocked) := match l.named with
    | some _ => programRules u rules l (allowed, ∅)
    | none => (allowed, ∅)
  allowed \ blocked

def decideListener (u : Unicode) (groups rules : List Rule) (acc : Plan × List (Int × Str))
    (l : Listener) : Plan × List (Int × Str) :=
  let (plan, asked) := acc
  let allowed := allowedOn u groups rules l
  let plan := { plan with opens := plan.opens.add allowed [l.proto] [(l.port, l.port)] }
  let question := if l.kind = .windows ∨ l.kind = .linuxUser then
      l.named.filter fun p => !knownProgram u rules p && (l.proto = .tcp || l.port < ephemeral)
    else none
  if allowed ≠ ∅ then ({ plan with decisions := plan.decisions ++ [⟨l, allowed, .allowed⟩] }, asked)
  else
    match question with
    | some p =>
      let plan := { plan with decisions := plan.decisions ++ [⟨l, allowed, .ask⟩] }
      let key := (l.ownerUid, programKey u p)
      if key ∈ asked then (plan, asked)
      else ({ plan with ask := plan.ask ++ [l] }, key :: asked)
    | none => ({ plan with decisions := plan.decisions ++ [⟨l, allowed, .blocked⟩] }, asked)

def evaluate (u : Unicode) (conf : Config) (rules : List Rule) (listeners : List Listener) : Plan :=
  (listeners.foldl (decideListener u (groupRules u conf) rules)
    (rules.foldl portRule .empty, [])).1

def rangeLe (a b : Nat × Nat) : Bool := a.1 < b.1 || (a.1 = b.1 && a.2 ≤ b.2)

def merge (ranges : List (Nat × Nat)) : List (Nat × Nat) := coalesce (ranges.mergeSort rangeLe)

def elements (ranges : List (Nat × Nat)) : Str := Nft.elementsText (merge ranges)

def isPlainName (c : Nat) : Bool :=
  isLetter c || (48 ≤ c && c ≤ 57) || c ∈ str "_.:@+-"

def nftQuote (s : Str) : Str := 34 :: s.map (fun c => if isPlainName c then c else 95) ++ [34]

def setName (p : Profile) (kind : Action) (proto : Proto) : Str :=
  p.text ++ str "_" ++ kind.text ++ str "_" ++ proto.text

def setBody (src : List (Nat × Nat)) : List Str :=
  [str "\t\ttype inet_service", str "\t\tflags interval"] ++
    if src = [] then [] else [str "\t\telements = \x7b " ++ elements src ++ str " \x7d"]

def setLines (p : Profile) (kind : Action) (proto : Proto) (src : List (Nat × Nat)) : List Str :=
  (str "\tset " ++ setName p kind proto ++ str " \x7b") :: setBody src ++ [str "\t\x7d"]

def Plan.sets (plan : Plan) : Action → Sets
  | .allow => plan.opens
  | .block => plan.blocks

def profileSets (plan : Plan) (p : Profile) : List Str :=
  [Action.allow, .block].flatMap fun kind =>
    [Proto.tcp, .udp].flatMap fun proto => setLines p kind proto (plan.sets kind p proto)

def vmapLine (ifaces : Dict Str Profile) : Str :=
  str "\t\tiifname vmap \x7b " ++
    [44, 32].intercalate (ifaces.items.map fun (i, p) => nftQuote i ++ str " : goto " ++ p.text) ++
    str " \x7d"

def inputBody (ifaces : Dict Str Profile) : List Str :=
  [str "\t\ttype filter hook input priority filter; policy accept;",
    str "\t\tiif \"lo\" accept",
    str "\t\tct state established,related accept",
    str "\t\tct state invalid drop",
    str "\t\t# what IPv6 and IPv4 cannot work without",
    str "\t\ticmpv6 type \x7b destination-unreachable, packet-too-big, time-exceeded, parameter-problem, " ++
      str "nd-router-advert, nd-neighbor-solicit, nd-neighbor-advert, nd-redirect, mld-listener-query, " ++
      str "mld-listener-report, mld2-listener-report \x7d accept",
    str "\t\ticmp type \x7b destination-unreachable, time-exceeded, parameter-problem \x7d accept",
    str "\t\t# this PC's own address: the DHCP server's answers",
    str "\t\tudp sport 67 udp dport 68 accept",
    str "\t\tip6 saddr fe80::/10 udp sport 547 udp dport 546 accept",
    str "\t\t# this PC's own virtual machines' and containers' networks",
    str "\t\tiifname \x7b \"virbr*\", \"docker*\", \"br-*\", \"lxcbr*\", \"lxdbr*\", \"incusbr*\", " ++
      str "\"vboxnet*\", \"vmnet*\" \x7d accept"] ++
    (if ifaces.items = [] then [] else [vmapLine ifaces]) ++ [str "\t\tgoto public"]

def allowsEcho (conf : Config) (p : Profile) : Bool :=
  match conf.settings p .allowInboundEchoRequest with
  | none => p ≠ .pub
  | some n => n ≠ 0

def noExceptions (conf : Config) (p : Profile) : Bool :=
  (conf.settings p .doNotAllowExceptions).any (· ≠ 0)

def dportLine (p : Profile) (kind : Action) (proto : Proto) (verdict : Str) : Str :=
  str "\t\t" ++ proto.text ++ str " dport @" ++ setName p kind proto ++ str " " ++ verdict

def chainBody (conf : Config) (p : Profile) : List Str :=
  if !conf.profiles p then
    [str "\t\t# the firewall is off on " ++ p.text ++ str " networks", str "\t\taccept"]
  else
    (if allowsEcho conf p then
      [str "\t\ticmp type echo-request accept", str "\t\ticmpv6 type echo-request accept"] else []) ++
    if noExceptions conf p then
      [str "\t\t# all incoming connections are blocked, the allowed apps' too", str "\t\tcounter drop"]
    else
      [dportLine p .block .tcp (str "drop"), dportLine p .block .udp (str "drop"),
        dportLine p .allow .tcp (str "accept"), dportLine p .allow .udp (str "accept")] ++
      if conf.settings p .defaultInboundAction = some 0 then [str "\t\taccept"]
      else [str "\t\tcounter drop"]

def chainLines (name : Str) (body : List Str) : List Str :=
  (str "\tchain " ++ name ++ str " \x7b") :: body ++ [str "\t\x7d"]

def rulesetLines (conf : Config) (plan : Plan) (ifaces : Dict Str Profile) : List Str :=
  [str "table inet sg_firewall \x7b",
    str "\tcomment \"Stained Glass Firewall (sg-firewall): made by the program, changes here are replaced\""] ++
    profileOrder.flatMap (profileSets plan) ++
    chainLines (str "input") (inputBody ifaces) ++
    (profileOrder.flatMap fun p => chainLines p.text (chainBody conf p)) ++
    [str "\x7d"]

def ruleset (conf : Config) (plan : Plan) (ifaces : Dict Str Profile) : Str :=
  joinLines (rulesetLines conf plan ifaces)

end StainedGlass.Firewall
