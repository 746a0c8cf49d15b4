import StainedGlass.Lib.Intervals
import StainedGlass.Lib.Text

/-! The text of an nftables table, as far as sets of ports and chains of simple statements go. -/

namespace StainedGlass.Lib.Nft

inductive Verdict where
  | accept
  | drop
  deriving DecidableEq

inductive Packet where
  | transport (proto : Str) (dport : Nat)
  | icmp (family type : Str)

inductive Statement where
  | comment
  | always (v : Verdict)
  | dport (proto set : Str) (v : Verdict)
  | icmpType (family type : Str) (v : Verdict)
  deriving DecidableEq

def close : Str := str "\t\x7d"

def body (header : Str) (lines : List Str) : Option (List Str) :=
  match lines.dropWhile (· ≠ header) with
  | [] => none
  | _ :: rest => some (rest.takeWhile (· ≠ close))

def setHeader (name : Str) : Str := str "\tset " ++ name ++ str " \x7b"

def chainHeader (name : Str) : Str := str "\tchain " ++ name ++ str " \x7b"

def asciiDigit (c : Nat) : Option Nat := if 48 ≤ c ∧ c ≤ 57 then some (c - 48) else none

def readPort (s : Str) : Option Nat :=
  if s = [] then none else (digitsValue asciiDigit s).filter (· ≤ 65535)

def readElement (s : Str) : Option (Nat × Nat) :=
  match ((s.dropWhile (· = 32)).splitOn 45).mapM readPort with
  | some [n] => some (n, n)
  | some [lo, hi] => if lo ≤ hi then some (lo, hi) else none
  | _ => none

def elementsStart : Str := str "\t\telements = \x7b "

def elementsEnd : Str := str " \x7d"

def readSet (lines : List Str) (name : Str) : Option (List (Nat × Nat)) :=
  match body (setHeader name) lines with
  | none => none
  | some b =>
    match b.find? (startsWith · elementsStart) with
    | none => some []
    | some l =>
      let rest := l.drop elementsStart.length
      ((rest.take (rest.length - elementsEnd.length)).splitOn 44).mapM readElement

def readVerdict (words : List Str) : Option Verdict :=
  if words = [str "accept"] then some .accept
  else if words = [str "drop"] ∨ words = [str "counter", str "drop"] then some .drop
  else none

def readStatement (line : Str) : Option Statement :=
  match (line.drop 2).splitOn 32 with
  | word :: words =>
    if word = str "#" then some .comment
    else
      match readVerdict (word :: words) with
      | some v => some (.always v)
      | none =>
        match words with
        | key :: value :: rest =>
          match readVerdict rest with
          | none => none
          | some v =>
            if key = str "dport" then
              match value with
              | 64 :: set => some (.dport word set v)
              | _ => none
            else if key = str "type" then some (.icmpType word value v)
            else none
        | _ => none
  | [] => none

def Statement.applies (lines : List Str) : Statement → Packet → Option Bool
  | .comment, _ => some false
  | .always _, _ => some true
  | .dport proto set _, .transport proto' port =>
    (readSet lines set).map fun rs => proto = proto' ∧ Covers rs port
  | .dport _ set _, .icmp .. => (readSet lines set).map fun _ => false
  | .icmpType family type _, .icmp family' type' => some (family = family' ∧ type = type')
  | .icmpType .., .transport .. => some false

def Statement.verdict : Statement → Verdict
  | .comment => .accept
  | .always v => v
  | .dport _ _ v => v
  | .icmpType _ _ v => v

def runChain (lines : List Str) (pkt : Packet) : List Statement → Option Verdict
  | [] => some .accept
  | s :: rest =>
    match s.applies lines pkt with
    | none => none
    | some true => some s.verdict
    | some false => runChain lines pkt rest

def verdict (text chain : Str) (pkt : Packet) : Option Verdict :=
  let lines := text.splitOn 10
  match (body (chainHeader chain) lines).bind (·.mapM readStatement) with
  | some statements => runChain lines pkt statements
  | none => none

structure Block where
  header : Str
  body : List Str

def Block.lines (b : Block) : List Str := b.header :: b.body ++ [close]

def isInner : Str → Bool
  | 9 :: 9 :: _ => true
  | _ => false

theorem body_append (hfront : header ∉ front) (hb : close ∉ b) (back : List Str) :
    body header (front ++ (header :: b ++ close :: back)) = some b := by
  have hdrop : (front ++ (header :: b ++ close :: back)).dropWhile (· ≠ header) =
      header :: b ++ close :: back := by
    rw [List.dropWhile_append_of_pos fun l hl => by simpa using ne_of_mem_of_not_mem hl hfront,
      List.cons_append, List.dropWhile_cons_of_neg (by simp)]
  have htake : (b ++ close :: back).takeWhile (· ≠ close) = b := by
    rw [List.takeWhile_append_of_pos fun l hl => by simpa using ne_of_mem_of_not_mem hl hb]
    simp
  rw [body, hdrop, List.cons_append]
  simp only [htake]

theorem body_blocks {blocks : List Block} {b : Block} (hb : b ∈ blocks)
    (hfront : b.header ∉ front) (hinner : ∀ b ∈ blocks, ∀ l ∈ b.body, isInner l)
    (hheader : isInner b.header = false) (hclose : b.header ≠ close) (hnodup : (blocks.map Block.header).Nodup) :
    body b.header (front ++ blocks.flatMap Block.lines ++ back) = some b.body := by
  obtain ⟨pre, post, rfl⟩ := List.append_of_mem hb
  have hpre : b.header ∉ front ++ pre.flatMap Block.lines := by
    rw [List.mem_append, List.mem_flatMap]
    rintro (h | ⟨b', hb', h⟩)
    · exact hfront h
    · simp only [Block.lines, List.cons_append, List.mem_cons, List.mem_append, List.not_mem_nil,
        or_false] at h
      obtain h | h | h := h
      · rw [List.map_append, List.map_cons, List.nodup_append] at hnodup
        exact hnodup.2.2 b'.header (List.mem_map_of_mem hb') b.header (.head _) h.symm
      · rw [hinner b' (List.mem_append_left _ hb') _ h] at hheader
        cases hheader
      · exact hclose h
  have hbody : close ∉ b.body := fun h => absurd (hinner b hb close h) (by decide)
  rw [← body_append hpre hbody (post.flatMap Block.lines ++ back)]
  simp [Block.lines]

theorem readPort_dec (h : n ≤ 65535) : readPort (dec n) = some n := by
  have hdigit (c : Nat) (h₁ : 48 ≤ c) (h₂ : c ≤ 57) : asciiDigit c = some (c - 48) := by
    simp [asciiDigit, h₁, h₂]
  rw [readPort, if_neg (dec_ne_nil n), digitsValue_dec hdigit]
  simp [h]

def elementText (r : Nat × Nat) : Str :=
  if r.1 = r.2 then dec r.1 else dec r.1 ++ 45 :: dec r.2

theorem dropWhile_blank_elementText (r : Nat × Nat) (blanks : Str) (hblanks : ∀ c ∈ blanks, c = 32) :
    (blanks ++ elementText r).dropWhile (· = 32) = elementText r := by
  obtain ⟨d, ds, hd⟩ := List.exists_cons_of_ne_nil (dec_ne_nil r.1)
  have hd32 : d ≠ 32 := by
    rintro rfl
    have hmem : 32 ∈ dec r.1 := by simp [hd]
    exact notMem_dec r.1 (by decide) hmem
  rw [List.dropWhile_append_of_pos (by simpa using hblanks)]
  rw [elementText]
  split
  · rw [hd, List.dropWhile_cons_of_neg (by simpa using hd32)]
  · rw [hd, List.cons_append, List.dropWhile_cons_of_neg (by simpa using hd32)]

theorem readElement_elementText {r : Nat × Nat} (hle : r.1 ≤ r.2) (hmax : r.2 ≤ 65535) (blanks : Str)
    (hblanks : ∀ c ∈ blanks, c = 32) : readElement (blanks ++ elementText r) = some r := by
  have hdash (n : Nat) : 45 ∉ dec n := notMem_dec n (by decide)
  have hlo := readPort_dec (hle.trans hmax)
  rw [readElement, dropWhile_blank_elementText r blanks hblanks, elementText]
  by_cases heq : r.1 = r.2
  · have hread : [dec r.1].mapM readPort = some [r.1] := by simp [hlo]
    rw [if_pos heq, List.splitOn_eq_singleton (hdash _), hread]
    exact congrArg some (Prod.ext rfl heq)
  · rw [if_neg heq, splitOn_pair (hdash _) (hdash _)]
    simp [hlo, readPort_dec hmax, hle]

theorem notMem_elementText (h : ¬ (48 ≤ c ∧ c ≤ 57)) (hc : c ≠ 45) (r : Nat × Nat) : c ∉ elementText r := by
  rw [elementText]
  split
  · exact notMem_dec _ h
  · simp [notMem_dec _ h, hc]

def elementsText (rs : List (Nat × Nat)) : Str := [44, 32].intercalate (rs.map elementText)

theorem notMem_elementsText (h : ¬ (48 ≤ c ∧ c ≤ 57)) (hc : c ∉ str "-, ")
    (rs : List (Nat × Nat)) : c ∉ elementsText rs := by
  refine notMem_intercalate (fun hmem => hc ?_) fun s hs => ?_
  · exact List.mem_of_mem_tail hmem
  · obtain ⟨r, -, rfl⟩ := List.mem_map.mp hs
    exact notMem_elementText h (fun heq => hc (heq ▸ by decide)) r

theorem elementsText_cons (r : Nat × Nat) (rs : List (Nat × Nat)) :
    elementsText (r :: rs) =
      [44].intercalate (elementText r :: rs.map fun r => 32 :: elementText r) := by
  induction rs generalizing r with
  | nil => simp [elementsText]
  | cons r' rs ih =>
    have hstep : elementsText (r :: r' :: rs) = elementText r ++ [44, 32] ++ elementsText (r' :: rs) := by
      simp [elementsText, List.intercalate]
    have hblank : [44].intercalate ((32 :: elementText r') :: rs.map fun r => 32 :: elementText r) =
        32 :: [44].intercalate (elementText r' :: rs.map fun r => 32 :: elementText r) := by
      cases rs <;> simp [List.intercalate]
    rw [hstep, ih r', List.map_cons, ← List.singleton_append, ← List.singleton_append]
    simpa [List.intercalate] using hblank.symm

theorem readElements (hne : rs ≠ []) (h : ∀ r ∈ rs, r.1 ≤ r.2 ∧ r.2 ≤ 65535) :
    ((elementsText rs).splitOn 44).mapM readElement = some rs := by
  cases rs with
  | nil => exact absurd rfl hne
  | cons r rs =>
    have hcomma (r : Nat × Nat) : 44 ∉ elementText r := notMem_elementText (by decide) (by decide) r
    have hfirst : readElement (elementText r) = some r :=
      readElement_elementText (h r (.head _)).1 (h r (.head _)).2 [] nofun
    have hrest (rs : List (Nat × Nat)) (h : ∀ r ∈ rs, r.1 ≤ r.2 ∧ r.2 ≤ 65535) :
        (rs.map fun r => 32 :: elementText r).mapM readElement = some rs := by
      induction rs with
      | nil => rfl
      | cons r rs ih =>
        have hr : readElement (32 :: elementText r) = some r :=
          readElement_elementText (h r (.head _)).1 (h r (.head _)).2 [32] (by simp)
        simp [hr, ih fun r hr => h r (.tail _ hr)]
    have hsplit : ([44].intercalate (elementText r :: rs.map fun r => 32 :: elementText r)).splitOn 44 =
        elementText r :: rs.map fun r => 32 :: elementText r := by
      refine List.splitOn_intercalate 44 (fun l hl => ?_) (List.cons_ne_nil _ _)
      obtain rfl | hl := List.mem_cons.mp hl
      · exact hcomma r
      · obtain ⟨r', -, rfl⟩ := List.mem_map.mp hl
        simp [hcomma]
    rw [elementsText_cons, hsplit, List.mapM_cons, hfirst, hrest rs fun r hr => h r (.tail _ hr)]
    rfl

def elementsLine (rs : List (Nat × Nat)) : Str := elementsStart ++ elementsText rs ++ elementsEnd

theorem readSet_eq (hbody : body (setHeader name) lines = some (front ++ if rs = [] then [] else [elementsLine rs]))
    (hfront : ∀ l ∈ front, startsWith l elementsStart = false)
    (h : ∀ r ∈ rs, r.1 ≤ r.2 ∧ r.2 ≤ 65535) : readSet lines name = some rs := by
  have hnone : front.find? (startsWith · elementsStart) = none := by simpa using hfront
  rw [readSet, hbody]
  simp only [List.find?_append, hnone, Option.none_or]
  by_cases hrs : rs = []
  · simp [hrs]
  · have hstart : startsWith (elementsLine rs) elementsStart = true := by
      simp [startsWith, elementsLine]
    have hdrop : (elementsLine rs).drop elementsStart.length = elementsText rs ++ elementsEnd := by
      simp [elementsLine]
    simp only [if_neg hrs, List.find?_cons, hstart, hdrop, List.length_append, Nat.add_sub_cancel,
      List.take_left', readElements hrs h]

end StainedGlass.Lib.Nft
