import StainedGlass.Broker.LaunchLaws
import StainedGlass.Broker.Polkit

namespace StainedGlass.Broker

open Lib

def uidList (uids : List UInt32) : Bytes := [44].intercalate (uids.map fun u => decimal u.toNat)

/-- The numbers that stand in the first `n` bytes of the list, the last one with the digits it
keeps. -/
def within : Nat → List UInt32 → List UInt32
  | _, [] => []
  | n, u :: us =>
    let d := (decimal u.toNat).length
    if d ≤ n then u :: within (n - d - 1) us
    else if n = 0 then [] else [.ofNat (u.toNat / 10 ^ (d - n))]

theorem tokens_nil (sep : UInt8) : tokens sep [] = [] := by simp [tokens]

theorem tokens_word (h : sep ∉ w) (hw : w ≠ []) : tokens sep w = [w] := by
  rw [tokens, List.splitOn_eq_singleton h, List.filter_cons_of_pos (by simpa using hw), List.filter_nil]

theorem tokens_cons (h : sep ∉ w) (hw : w ≠ []) (rest : Bytes) :
    tokens sep (w ++ sep :: rest) = w :: tokens sep rest := by
  rw [tokens, List.splitOn_append_cons_self_of_not_mem h, List.filter_cons_of_pos (by simpa using hw), tokens]

theorem decimal_ne_nil (n : Nat) : decimal n ≠ [] := by
  obtain ⟨d, ds, h, -⟩ := decimal_eq_cons n
  simp [h]

theorem comma_notMem_decimal (n : Nat) : 44 ∉ decimal n := notMem_decimal n (by decide)

variable {n : Nat}

theorem isDigit_of_mem (h : c ∈ decimal n) : isDigit c = true := by
  simp [isDigit, isDigit_of_mem_decimal h]

theorem strtoul_uid (u : UInt32) : UInt32.ofNat (strtoul (decimal u.toNat)) = u := by
  have h : strtoul (decimal u.toNat ++ []) = u.toNat := strtoul_decimal (u.toNat_lt.trans (by decide)) (by simp)
  rw [List.append_nil] at h
  rw [h, UInt32.ofNat_toNat]

theorem strtoul_take_uid (u : UInt32) (n : Nat) :
    strtoul ((decimal u.toNat).take n) = u.toNat / 10 ^ ((decimal u.toNat).length - n) := by
  have hlt : u.toNat / 10 ^ ((decimal u.toNat).length - n) < 2 ^ 64 :=
    (Nat.div_le_self _ _).trans_lt (u.toNat_lt.trans (by decide))
  rw [strtoul_digits fun c hc => isDigit_of_mem (List.mem_of_mem_take hc), readDigits_take_decimal]
  omega

def uidOf (tok : Bytes) : UInt32 := .ofNat (strtoul tok)

theorem tokens_take_decimal (u : UInt32) (hn : n < (decimal u.toNat).length) :
    (tokens 44 ((decimal u.toNat).take n)).map uidOf = within n (u :: us) := by
  rw [within]
  simp only [if_neg hn.not_ge]
  by_cases hzero : n = 0
  · rw [if_pos hzero, hzero, List.take_zero, tokens_nil, List.map_nil]
  · rw [if_neg hzero, tokens_word]
    · rw [List.map_singleton, uidOf, strtoul_take_uid]
    · exact fun h => comma_notMem_decimal _ (List.mem_of_mem_take h)
    · simp [List.take_eq_nil_iff, hzero, decimal_ne_nil]

theorem within_zero (us : List UInt32) : within 0 us = [] := by
  cases us with
  | nil => rfl
  | cons u us =>
    have hpos := List.length_pos_iff.mpr (decimal_ne_nil u.toNat)
    simp only [within, if_neg hpos.not_ge, if_true]

theorem uidList_cons_cons (u v : UInt32) (us : List UInt32) :
    uidList (u :: v :: us) = decimal u.toNat ++ 44 :: uidList (v :: us) := by
  simp [uidList, List.intercalate_cons_cons]

theorem uidList_singleton (u : UInt32) : uidList [u] = decimal u.toNat := by
  simp [uidList]

theorem tokens_take_uidList (n : Nat) (us : List UInt32) :
    (tokens 44 ((uidList us).take n)).map uidOf = within n us := by
  induction us generalizing n with
  | nil => simp [uidList, tokens_nil, within]
  | cons u us ih =>
    by_cases hn : n < (decimal u.toNat).length
    · have htake : (uidList (u :: us)).take n = (decimal u.toNat).take n := by
        cases us with
        | nil => rw [uidList_singleton]
        | cons v us => rw [uidList_cons_cons, List.take_append_of_le_length hn.le]
      rw [htake, tokens_take_decimal u hn]
    · have hle := Nat.le_of_not_lt hn
      have hword := tokens_word (comma_notMem_decimal u.toNat) (decimal_ne_nil u.toNat)
      have hu : uidOf (decimal u.toNat) = u := strtoul_uid u
      rw [within]
      simp only [if_pos hle]
      cases us with
      | nil => rw [uidList_singleton, List.take_of_length_le hle, hword, List.map_singleton, hu, within]
      | cons v us =>
        rw [uidList_cons_cons, List.take_append, List.take_of_length_le hle]
        cases n - (decimal u.toNat).length with
        | zero => rw [List.take_zero, List.append_nil, hword, List.map_singleton, hu, Nat.zero_sub, within_zero]
        | succ k =>
          rw [List.take_succ_cons, tokens_cons (comma_notMem_decimal _) (decimal_ne_nil _), List.map_cons, hu, ih,
            Nat.add_sub_cancel]

variable {us : List UInt32}

theorem within_of_length_le (h : (uidList us).length ≤ n) : within n us = us := by
  induction us generalizing n with
  | nil => rfl
  | cons u us ih =>
    cases us with
    | nil =>
      rw [uidList_singleton] at h
      simp only [within, if_pos h]
    | cons v us =>
      rw [uidList_cons_cons, List.length_append, List.length_cons] at h
      rw [within]
      simp only [if_pos (show (decimal u.toNat).length ≤ n by omega)]
      rw [ih (by omega)]

theorem uidList_ne_nil (u : UInt32) (us : List UInt32) : uidList (u :: us) ≠ [] := by
  cases us with
  | nil =>
    rw [uidList_singleton]
    exact decimal_ne_nil _
  | cons v us =>
    rw [uidList_cons_cons]
    simp

theorem cut_lt {u : UInt32} (hn : n < (decimal u.toNat).length) (hpos : n ≠ 0) :
    UInt32.ofNat (u.toNat / 10 ^ ((decimal u.toNat).length - n)) < u := by
  have hu : 0 < u.toNat := by
    by_contra hzero
    have hone : (decimal u.toNat).length = 1 := by
      rw [Nat.eq_zero_of_not_pos hzero]
      rfl
    omega
  have hlt := Nat.div_lt_self hu (Nat.one_lt_pow (Nat.sub_ne_zero_of_lt hn) (by decide : 1 < 10))
  rwa [UInt32.lt_iff_toNat_lt, UInt32.toNat_ofNat_of_lt' (hlt.trans u.toNat_lt)]

theorem within_of_lt_length (h : n < (uidList us).length) :
    ∃ pre u post, us = pre ++ u :: post ∧ (within n us = pre ∨ ∃ v < u, within n us = pre ++ [v]) := by
  induction us generalizing n with
  | nil => simp [uidList] at h
  | cons u us ih =>
    by_cases hn : n < (decimal u.toNat).length
    · refine ⟨[], u, us, rfl, ?_⟩
      rw [within]
      simp only [if_neg hn.not_ge]
      by_cases hzero : n = 0
      · exact .inl (if_pos hzero)
      · exact .inr ⟨_, cut_lt hn hzero, if_neg hzero⟩
    · have hle := Nat.le_of_not_lt hn
      have hrest : n - (decimal u.toNat).length - 1 < (uidList us).length := by
        cases us with
        | nil =>
          rw [uidList_singleton] at h
          omega
        | cons v us =>
          rw [uidList_cons_cons, List.length_append, List.length_cons] at h
          have hpos := List.length_pos_iff.mpr (uidList_ne_nil v us)
          omega
      obtain ⟨pre, w, post, rfl, hwithin⟩ := ih hrest
      refine ⟨u :: pre, w, post, rfl, ?_⟩
      rw [within]
      simp only [if_pos hle]
      obtain hwithin | ⟨v, hv, hwithin⟩ := hwithin
      · exact .inl (by rw [hwithin])
      · exact .inr ⟨v, hv, by rw [hwithin]; rfl⟩

theorem within_iff (hnodup : us.Nodup) : (∀ u, u ∈ within n us ↔ u ∈ us) ↔ (uidList us).length ≤ n := by
  refine ⟨fun h => ?_, fun h u => by rw [within_of_length_le h]⟩
  by_contra hlt
  obtain ⟨pre, u, post, rfl, hwithin⟩ := within_of_lt_length (Nat.lt_of_not_le hlt)
  have hpre : u ∉ pre := fun hu => (List.nodup_append.mp hnodup).2.2 u hu u (.head _) rfl
  have hu := (h u).mpr (by simp)
  obtain hwithin | ⟨v, hv, hwithin⟩ := hwithin
  · rw [hwithin] at hu
    exact hpre hu
  · rw [hwithin, List.mem_append, List.mem_singleton] at hu
    obtain hu | rfl := hu
    · exact hpre hu
    · exact absurd hv (UInt32.lt_irrefl _)

structure Agree (ids text : Bytes) : Prop where
  take : ids.take 255 = text.take 255
  whole : ids = text ∨ 255 ≤ ids.length ∧ 255 ≤ text.length

theorem length_uid_le (u : UInt32) : (decimal u.toNat).length ≤ 10 :=
  length_decimal_le (by decide) (u.toNat_lt.trans (by decide))

theorem length_oneUid_le (ids : Bytes) (u : UInt32) : (oneUid ids u).length ≤ 11 := by
  have hlen := length_uid_le u
  rw [oneUid, List.length_append]
  split
  · rw [List.length_nil]
    omega
  · rw [List.length_singleton]
    omega

theorem Agree.add (h : Agree ids text) (u : UInt32) : Agree (addUid ids u) (text ++ oneUid text u) := by
  obtain rfl | ⟨hids, htext⟩ := h.whole
  · rw [addUid]
    split
    · exact ⟨rfl, .inl rfl⟩
    · next hfull =>
      have hone := length_oneUid_le ids u
      have hlong : 255 ≤ ids.length := by omega
      exact ⟨by rw [List.take_append_of_le_length hlong], .inr ⟨hlong, by rw [List.length_append]; omega⟩⟩
  · have htake : (addUid ids u).take 255 = ids.take 255 ∧ 255 ≤ (addUid ids u).length := by
      rw [addUid]
      split
      · exact ⟨List.take_append_of_le_length hids, by rw [List.length_append]; omega⟩
      · exact ⟨rfl, hids⟩
    refine ⟨?_, .inr ⟨htake.2, by rw [List.length_append]; omega⟩⟩
    rw [htake.1, h.take, List.take_append_of_le_length htext]

theorem uidList_concat (us : List UInt32) (u : UInt32) :
    uidList (us ++ [u]) = uidList us ++ oneUid (uidList us) u := by
  rw [oneUid]
  induction us with
  | nil => simp [uidList]
  | cons v us ih =>
    cases us with
    | nil => simp [uidList_singleton, uidList_cons_cons, decimal_ne_nil]
    | cons w us =>
      rw [List.cons_append, List.cons_append, uidList_cons_cons, ← List.cons_append, ih,
        if_neg (uidList_ne_nil w us), if_neg (uidList_ne_nil v _), uidList_cons_cons]
      simp

theorem agree_ids (a : PolkitAsk) : Agree a.ids (uidList a.uids) := by
  rw [PolkitAsk.ids]
  induction a.uids using List.reverseRecOn with
  | nil => exact ⟨rfl, .inl rfl⟩
  | append_singleton us u ih =>
    rw [List.foldl_append, uidList_concat]
    exact ih.add u

theorem ids_eq_nil_iff (a : PolkitAsk) : a.ids = [] ↔ a.uids = [] := by
  have hagree := agree_ids a
  cases huids : a.uids with
  | nil => simp [PolkitAsk.ids, huids]
  | cons u us =>
    rw [huids] at hagree
    have hne := uidList_ne_nil u us
    obtain hids | ⟨hids, -⟩ := hagree.whole
    · simp [hids, hne]
    · have hpos : 0 < a.ids.length := by omega
      simp [List.length_pos_iff.mp hpos]

variable {ids : Bytes}

theorem length_foldl_addUid (us : List UInt32) (h : ids.length < 1024) :
    (us.foldl addUid ids).length < 1024 := by
  induction us generalizing ids with
  | nil => exact h
  | cons u us ih =>
    apply ih
    rw [addUid]
    split
    · next hfits => rwa [List.length_append]
    · exact h

theorem nul_notMem_addUid (h : 0 ∉ ids) (u : UInt32) : 0 ∉ addUid ids u := by
  have hdecimal : (0 : UInt8) ∉ decimal u.toNat := notMem_decimal _ (by decide)
  have hone : 0 ∉ oneUid ids u := by
    rw [oneUid, List.mem_append]
    split <;> simp [hdecimal]
  rw [addUid]
  split
  · rw [List.mem_append]
    exact fun h' => h'.elim h hone
  · exact h

theorem nul_notMem_foldl_addUid (us : List UInt32) (h : 0 ∉ ids) : 0 ∉ us.foldl addUid ids := by
  induction us generalizing ids with
  | nil => exact h
  | cons u us ih => exact ih (nul_notMem_addUid h u)

theorem bytes_keyValue (hkey : 0 ∉ ascii (key ++ "=")) (hv : 0 ∉ v) :
    (keyValue size key v).bytes = (ascii (key ++ "=") ++ v).take (size - 1) := by
  apply cstr_eq_self
  intro h
  obtain h | h := List.mem_append.mp (List.mem_of_mem_take h)
  · exact hkey h
  · exact hv h

def cookiePart (a : PolkitAsk) : CString := .ofBuffer (a.cookie.bytes.take 4081)

theorem length_cookiePart (a : PolkitAsk) : maxField ≤ (cookiePart a).bytes.length ↔ maxField ≤ a.cookie.bytes.length := by
  have hbytes : (cookiePart a).bytes = a.cookie.bytes.take 4081 :=
    cstr_eq_self fun h => a.cookie.nul_free (List.mem_of_mem_take h)
  rw [hbytes, List.length_take, maxField]
  omega

theorem cookie_bytes (a : PolkitAsk) :
    (keyValue 4096 "POLKIT_COOKIE" a.cookie.bytes).bytes = ascii "POLKIT_COOKIE=" ++ a.cookie.bytes.take 4081 :=
  bytes_keyValue (by decide) a.cookie.nul_free

theorem action_bytes (a : PolkitAsk) :
    (keyValue 4096 "POLKIT_ACTION" a.action.bytes).bytes = ascii "POLKIT_ACTION=" ++ a.action.bytes.take 4081 :=
  bytes_keyValue (by decide) a.action.nul_free

theorem identities_bytes (a : PolkitAsk) :
    (keyValue 4096 "POLKIT_IDENTITIES" a.ids).bytes = ascii "POLKIT_IDENTITIES=" ++ a.ids := by
  have hshort : a.ids.length < 1024 := length_foldl_addUid a.uids (by decide)
  have hnul : 0 ∉ a.ids := nul_notMem_foldl_addUid a.uids List.not_mem_nil
  rw [bytes_keyValue (by decide) hnul]
  apply List.take_of_length_le
  rw [List.length_append, show (ascii ("POLKIT_IDENTITIES" ++ "=")).length = 18 by decide]
  omega

theorem not_isPrefixOf {key key' : Bytes} (h : ¬ key <+: key' ∧ ¬ key' <+: key) (v : Bytes) :
    key.isPrefixOf (key' ++ v) = false := by
  rw [Bool.eq_false_iff, ne_eq, List.isPrefixOf_iff_prefix]
  intro hprefix
  obtain hle | hle := Nat.le_total key.length key'.length
  · exact h.1 (List.prefix_of_prefix_length_le hprefix (List.prefix_append key' v) hle)
  · exact h.2 (List.prefix_of_prefix_length_le (List.prefix_append key' v) hprefix hle)

theorem envValue_append {kv : CString} (hkv : kv.bytes = ascii key ++ v)
    (hpost : ∀ e ∈ post, (ascii key).isPrefixOf e.bytes = false) (pre : List CString) :
    envValue key (pre ++ kv :: post) = some (.ofBuffer v) := by
  have hprefix : (ascii key).isPrefixOf kv.bytes = true := by
    rw [hkv, List.isPrefixOf_iff_prefix]
    exact List.prefix_append _ v
  have hnone : post.filter (fun e => (ascii key).isPrefixOf e.bytes) = [] := by
    rw [List.filter_eq_nil_iff]
    intro e he
    rw [hpost e he]
    exact Bool.false_ne_true
  rw [envValue, List.filter_append, List.filter_cons_of_pos (by exact hprefix), hnone, List.getLast?_append,
    List.getLast?_singleton, Option.some_or, Option.map_some, hkv, List.drop_left]

theorem envValue_env (a : PolkitAsk) :
    envValue "POLKIT_COOKIE=" a.env = some (cookiePart a) ∧
    envValue "POLKIT_ACTION=" a.env = some (.ofBuffer (a.action.bytes.take 4081)) ∧
    envValue "POLKIT_IDENTITIES=" a.env = some (.ofBuffer a.ids) := by
  refine ⟨envValue_append (cookie_bytes a) ?_ [], envValue_append (action_bytes a) ?_ [_],
    envValue_append (identities_bytes a) (by simp) [_, _]⟩
  · rw [List.forall_mem_cons, List.forall_mem_singleton, action_bytes, identities_bytes]
    exact ⟨not_isPrefixOf (by decide) _, not_isPrefixOf (by decide) _⟩
  · rw [List.forall_mem_singleton, identities_bytes]
    exact not_isPrefixOf (by decide) _

theorem env_ne_nil (a : PolkitAsk) {kv : CString} (h : kv ∈ a.env) : kv.bytes ≠ [] := by
  simp only [PolkitAsk.env, List.mem_cons, List.not_mem_nil, or_false] at h
  obtain rfl | rfl | rfl := h
  · rw [cookie_bytes]
    exact List.append_ne_nil_of_left_ne_nil (by decide) _
  · rw [action_bytes]
    exact List.append_ne_nil_of_left_ne_nil (by decide) _
  · rw [identities_bytes]
    exact List.append_ne_nil_of_left_ne_nil (by decide) _

def PolkitAsk.block (a : PolkitAsk) : Block := ⟨.ofString "@polkit", a.env, a.shown, fun _ => env_ne_nil a⟩

theorem listedUids_ids (a : PolkitAsk) : listedUids (.ofBuffer a.ids) = within (maxField - 1) a.uids := by
  have hbytes : (CString.ofBuffer a.ids).bytes = a.ids :=
    cstr_eq_self (nul_notMem_foldl_addUid a.uids List.not_mem_nil)
  rw [listedUids, hbytes, show maxField - 1 = 255 from rfl, (agree_ids a).take]
  exact tokens_take_uidList 255 a.uids

variable {db : Accounts} {requester who : CString} {agent : UInt32} {a : PolkitAsk} {blob : Bytes}

theorem polkitRequest_blob (h : a.blob = some blob) :
    polkitRequest db requester agent blob (some who) =
      (db.getpwnam (consenter requester who)).bind fun pw =>
        if pw.uid ∈ within (maxField - 1) a.uids then polkitRespond agent pw.uid (cookiePart a) else none := by
  simp only [PolkitAsk.blob, ite_eq_iff, reduceCtorEq, and_false, false_or, not_or, Option.some.injEq] at h
  obtain ⟨⟨-, hlen⟩, rfl⟩ := h
  have hblock : a.block.strings = .ofString "@polkit" :: a.env ++ .empty :: a.shown := rfl
  obtain ⟨hcookie, haction, hids⟩ := envValue_env a
  have hargs : a.shown.take 255 ≠ [] := by simp [List.take_eq_nil_iff, a.shown_ne]
  have hpack : pack (.ofString "@polkit" :: a.env ++ .empty :: a.shown) ≠ [] := by
    rw [List.cons_append, pack_cons]
    exact List.append_ne_nil_of_left_ne_nil (CString.terminated_ne_nil _) _
  have hparse : parseBlock ((pack (.ofString "@polkit" :: a.env ++ .empty :: a.shown)).dropLast ++ [0]) =
      ⟨.ofString "@polkit", a.env, a.shown.take 255⟩ := by
    rw [List.cons_append, dropLast_pack, ← List.cons_append, ← hblock, parseBlock_pack]
    rfl
  have hfits : ¬ (pack (.ofString "@polkit" :: a.env ++ .empty :: a.shown) = [] ∨
      maxBlob < (pack (.ofString "@polkit" :: a.env ++ .empty :: a.shown)).length) := by
    rw [not_or, maxBlob]
    exact ⟨hpack, by omega⟩
  rw [polkitRequest, if_neg hfits]
  simp only [hparse, hargs, ne_eq, not_true_eq_false, or_self, if_false, hcookie, haction, hids, listedUids_ids]
  cases db.getpwnam (consenter requester who) <;> rfl

/-- For everyone who may have consented, polkit is answered exactly when it would take them. -/
def AnswersListed (a : PolkitAsk) (blob : Bytes) : Prop :=
  ∀ (db : Accounts) (requester who : CString) (agent : UInt32) (pw : Passwd),
    db.getpwnam (consenter requester who) = some pw →
      ((∃ cookie, polkitRequest db requester agent blob (some who) = some (.polkit agent pw.uid cookie)) ↔
        pw.uid ∈ a.uids)

variable {pw : Passwd}

theorem answers_iff (h : a.blob = some blob) (hpw : db.getpwnam (consenter requester who) = some pw) :
    (∃ cookie, polkitRequest db requester agent blob (some who) = some (.polkit agent pw.uid cookie)) ↔
      pw.uid ∈ within (maxField - 1) a.uids ∧ a.cookie.bytes.length < maxField := by
  have hcookie := length_cookiePart a
  rw [polkitRequest_blob h, hpw, Option.bind_some]
  by_cases hmem : pw.uid ∈ within (maxField - 1) a.uids
  · rw [if_pos hmem, polkitRespond]
    by_cases hlong : maxField ≤ (cookiePart a).bytes.length
    · simp [hlong, (hcookie.mp hlong).not_gt]
    · simp [hlong, hmem, Nat.lt_of_not_le fun hle => hlong (hcookie.mpr hle)]
  · simp [hmem]

def aliasOf (uid : UInt32) (n : CString) : Option Passwd := some ⟨n, uid, 0, .empty, .empty⟩

theorem aliasOf_name {uid : UInt32} {n : CString} (h : aliasOf uid n = some pw) : pw.name = n := by
  cases h
  rfl

def noUid (_ : UInt32) : Option Passwd := none

theorem noUid_uid (h : noUid u = some pw) : pw.uid = u := by
  cases h

def aliases (uid : UInt32) : Accounts := ⟨aliasOf uid, noUid, fun _ => none, aliasOf_name, noUid_uid⟩

/-- Polkit is answered for exactly those it would take, unless the cookie or the list is too long. -/
theorem answersListed_iff (h : a.blob = some blob) :
    (AnswersListed a blob ↔
      a.cookie.bytes.length < maxField ∧ ∀ u, u ∈ within (maxField - 1) a.uids ↔ u ∈ a.uids) ∧
    ((uidList a.uids).length < maxField → within (maxField - 1) a.uids = a.uids) ∧
    (a.uids.Nodup → ((∀ u, u ∈ within (maxField - 1) a.uids ↔ u ∈ a.uids) ↔ (uidList a.uids).length < maxField)) := by
  have hfits : (uidList a.uids).length < maxField ↔ (uidList a.uids).length ≤ maxField - 1 := by
    rw [maxField]
    omega
  refine ⟨⟨fun hall => ?_, ?_⟩, fun hlen => within_of_length_le (hfits.mp hlen), fun hnodup => ?_⟩
  · have heach (u : UInt32) : (u ∈ within (maxField - 1) a.uids ∧ a.cookie.bytes.length < maxField) ↔ u ∈ a.uids := by
      have hanswer := hall (aliases u) .empty .empty 0 _ rfl
      rwa [answers_iff h rfl] at hanswer
    have hne : a.uids ≠ [] := by
      simp only [PolkitAsk.blob, ite_eq_iff, reduceCtorEq, and_false, false_or, not_or] at h
      exact fun hnil => h.1.1 ((ids_eq_nil_iff a).mpr hnil)
    obtain ⟨u, hu⟩ := List.exists_mem_of_ne_nil _ hne
    have hcookie := ((heach u).mpr hu).2
    exact ⟨hcookie, fun v => ⟨fun hv => (heach v).mp ⟨hv, hcookie⟩, fun hv => ((heach v).mpr hv).1⟩⟩
  · rintro ⟨hcookie, hwithin⟩ db requester who agent pw hpw
    rw [answers_iff h hpw, hwithin]
    exact and_iff_left hcookie
  · rw [within_iff hnodup, hfits]

def polkitAskFor (uids : List UInt32) : PolkitAsk where
  cookie := .ofString "1-0"
  action := .ofString "org.freedesktop.policykit.exec"
  identities := uids.map fun u => ⟨.ofString "unix-user", some u⟩
  shown := [.ofString "/usr/sbin/gparted"]
  shown_ne := List.cons_ne_nil _ _

theorem twoAdmins_answered : ∃ blob, (polkitAskFor [1000, 1001]).blob = some blob ∧ AnswersListed (polkitAskFor [1000, 1001]) blob := by
  obtain ⟨blob, hblob⟩ := Option.isSome_iff_exists.mp (show (polkitAskFor [1000, 1001]).blob.isSome by decide +kernel)
  exact ⟨blob, hblob, (answersListed_iff hblob).1.mpr ⟨by decide, fun u => by
    rw [(answersListed_iff hblob).2.1 (by decide)]⟩⟩

def manyAdmins : List UInt32 := (List.range 24).map fun i => .ofNat (1000000000 + i)

theorem manyAdmins_misread : ∃ blob, (polkitAskFor manyAdmins).blob = some blob ∧
    1000000023 ∈ (polkitAskFor manyAdmins).uids ∧
    polkitRequest (aliases 1000000023) .empty 1000 blob (some (.ofString "admin")) = none ∧
    10 ∉ (polkitAskFor manyAdmins).uids ∧
    polkitRequest (aliases 10) .empty 1000 blob (some (.ofString "uucp")) =
      some (.polkit 1000 10 (.ofString "1-0")) := by
  obtain ⟨blob, hblob⟩ := Option.isSome_iff_exists.mp (show (polkitAskFor manyAdmins).blob.isSome by decide +kernel)
  refine ⟨blob, hblob, by decide +kernel, ?_, by decide +kernel, ?_⟩
  · rw [polkitRequest_blob hblob]
    decide +kernel
  · rw [polkitRequest_blob hblob]
    decide +kernel

end StainedGlass.Broker
