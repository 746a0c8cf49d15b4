import StainedGlass.Pdf.Pages
import StainedGlass.Pdf.RefusedLaws

namespace StainedGlass.Pdf.Engine

open Lib
open scoped List

variable {π : Type} {t : Texts} {mu : Mupdf (List π)} {trouble : Option Raised} {s : State (List π)}

def State.pages (s : State (List π)) : Option (List π) := s.doc.map (·.file.content)

theorem ends_needDoc_bind {α : Type} {f : Doc (List π) → Cmd (List π) α} {Q : α → State (List π) → Prop}
    (h : ∀ d, s.doc = some d → (f d).Ends s Q fun _ _ => True) :
    (needDoc >>= f).Ends s Q fun _ _ => True := by
  rw [Act.ends_bind]
  cases hdoc : s.doc with
  | none => simp [needDoc, Act.Ends, hdoc]
  | some d => simpa [needDoc, Act.Ends, hdoc] using h d hdoc

theorem ends_state_pages {c : List π} (h : s.pages = some c) :
    (state trouble).Ends s (fun _ s' => s'.pages = some c) fun _ _ => True := by
  apply ends_needDoc_bind
  intro d hdoc
  rw [Act.ends_bind, Act.ends_get]
  cases trouble with
  | some e => trivial
  | none =>
    cases hreadable : d.readable with
    | false => simp
    | true => simpa using h

theorem ends_edit_pages {d : Doc (List π)} (hdoc : s.doc = some d) (c : List π) :
    (edit mu none permAssemble (.done c) trouble).Ends s (fun _ s' => s'.pages = some c) fun _ _ => True := by
  rw [edit, begin, Act.ends_bind]
  apply ends_needDoc_bind
  intro d' hd'
  rw [Act.ends_bind, Act.ends_get]
  cases hallowed : allowed s permAssemble with
  | false => simp [refuse]
  | true =>
    rw [if_pos rfl, Act.ends_bind]
    apply ends_needDoc_bind
    intro d'' hd''
    cases hreadable : d''.readable with
    | false => simp
    | true =>
      simp only [if_true, Act.ends_pure, modify, Act.ends_op, finish, changed, Act.ends_bind, reduceCtorEq,
        implies_true, and_true, forall_const]
      apply ends_state_pages
      simp [State.pages, State.setContent, State.push, hdoc]

/-- A part of a page list names one page, or all from one to another, whichever is the first. -/
def InPart (t : Texts) (part : Str) (i : Int) : Prop :=
  45 ∉ part ∧ t.int part = some i ∨
    ∃ x y a b, part = x ++ 45 :: y ∧ 45 ∉ x ∧ t.int x = some a ∧ t.int y = some b ∧ min a b ≤ i ∧ i ≤ max a b

structure Selected (t : Texts) (spec : Str) (n : Nat) (sel : List Nat) : Prop where
  ascending : sel.Pairwise (· < ·)
  lt : ∀ i ∈ sel, i < n
  mem (i : Nat) : i ∈ sel ↔ ∃ part ∈ (spec.splitOn 44).map t.unicode.strip, part ≠ [] ∧ InPart t part i

theorem cut_dash {x y : Str} (h : 45 ∉ x) : (x ++ 45 :: y).takeWhile (· ≠ 45) = x ∧
    ((x ++ 45 :: y).dropWhile (· ≠ 45)).drop 1 = y := by
  have hall : ∀ c ∈ x, decide (c ≠ 45) = true := fun c hc => by simpa using fun heq : c = 45 => h (heq ▸ hc)
  rw [List.takeWhile_append_of_pos hall, List.dropWhile_append_of_pos hall]
  simp

theorem mem_readPart {part : Str} {i : Int} (h : readPart t part = some pages) : i ∈ pages ↔ InPart t part i := by
  unfold readPart at h
  split at h
  · next hdash =>
    obtain ⟨x, y, rfl, hx⟩ := List.eq_append_cons_of_mem hdash
    rw [(cut_dash hx).1, (cut_dash hx).2] at h
    obtain ⟨a, ha, h⟩ := Option.bind_eq_some_iff.mp h
    obtain ⟨b, hb, h⟩ := Option.bind_eq_some_iff.mp h
    cases h
    have hrange : i ∈ (List.range (max a b - min a b + 1).toNat).map (fun k : Nat => min a b + (k : Int)) ↔
        min a b ≤ i ∧ i ≤ max a b := by
      rw [List.mem_map]
      constructor
      · rintro ⟨k, hk, rfl⟩
        rw [List.mem_range] at hk
        omega
      · exact fun hi => ⟨(i - min a b).toNat, List.mem_range.mpr (by omega), by omega⟩
    rw [hrange]
    constructor
    · exact fun hi => .inr ⟨x, y, a, b, rfl, hx, ha, hb, hi⟩
    · rintro (⟨hnot, -⟩ | ⟨x', y', a', b', hsplit, hx', ha', hb', hi⟩)
      · exact absurd hdash hnot
      · obtain rfl : x = x' := by rw [← (cut_dash hx).1, hsplit, (cut_dash hx').1]
        obtain rfl : y = y' := by simpa using hsplit
        cases ha.symm.trans ha'
        cases hb.symm.trans hb'
        exact hi
  · next hplain =>
    obtain ⟨j, hj, rfl⟩ := Option.map_eq_some_iff.mp h
    have hnot : ∀ x y : Str, part ≠ x ++ 45 :: y := by
      rintro x y rfl
      simp at hplain
    simp [InPart, hplain, hj, hnot, eq_comm]

theorem mem_flatten_mapM {f : α → Option (List β)} {xs : List α} {ys : List (List β)} (h : xs.mapM f = some ys) :
    (∀ x ∈ xs, ∃ y, f x = some y) ∧ ∀ b, b ∈ ys.flatten ↔ ∃ x ∈ xs, ∃ y, f x = some y ∧ b ∈ y := by
  rw [mapM_eq_some_iff] at h
  induction h with
  | nil => simp
  | cons hxy _ ih => exact ⟨List.forall_mem_cons.mpr ⟨⟨_, hxy⟩, ih.1⟩, by simp [ih.2, hxy]⟩

theorem selected_of_parsePages {sel : List Nat} (h : parsePages t spec n = .ok sel) : Selected t spec n sel := by
  unfold parsePages at h
  split at h
  · cases h
  · next parts hparts =>
    simp only at h
    split at h
    · cases h
    · next hout =>
      cases h
      push Not at hout
      have hperm := List.perm_insertionSort (· ≤ ·) (parts.flatten.map Int.toNat).dedup
      have hmem (i : Nat) : i ∈ (parts.flatten.map Int.toNat).dedup.insertionSort (· ≤ ·) ↔ (i : Int) ∈ parts.flatten := by
        rw [hperm.mem_iff, List.mem_dedup, List.mem_map]
        constructor
        · rintro ⟨j, hj, rfl⟩
          rwa [Int.toNat_of_nonneg (hout.2 j hj).1]
        · exact fun hi => ⟨i, hi, rfl⟩
      refine ⟨?_, fun i hi => ?_, fun i => ?_⟩
      · have hnodup := hperm.nodup_iff.2 (List.nodup_dedup _)
        exact ((List.pairwise_insertionSort (· ≤ ·) _).and hnodup).imp fun h => lt_of_le_of_ne h.1 h.2
      · exact_mod_cast (hout.2 i ((hmem i).mp hi)).2
      · obtain ⟨hread, hflatten⟩ := mem_flatten_mapM hparts
        simp only [List.mem_filter, decide_eq_true_eq] at hread hflatten
        rw [hmem, hflatten]
        constructor
        · rintro ⟨part, hpart, pages, hpages, hi⟩
          exact ⟨part, hpart.1, hpart.2, (mem_readPart hpages).mp hi⟩
        · rintro ⟨part, hpart, hne, hi⟩
          obtain ⟨pages, hpages⟩ := hread part ⟨hpart, hne⟩
          exact ⟨part, ⟨hpart, hne⟩, pages, hpages, (mem_readPart hpages).mpr hi⟩

theorem filter_append_filter_not {xs : List α}
    (h : xs.Pairwise fun a b => p b = true → p a = true) : xs.filter p ++ xs.filter (!p ·) = xs := by
  induction xs with
  | nil => rfl
  | cons x xs ih =>
    obtain ⟨hx, hxs⟩ := List.pairwise_cons.1 h
    cases hp : p x with
    | true => simp [hp, ih hxs]
    | false =>
      have hnone : xs.filter p = [] := by
        apply List.filter_eq_nil_iff.2
        intro b hb hpb
        exact Bool.noConfusion (hp.symm.trans (hx b hb hpb))
      have hrest : xs.filter (!p ·) = xs := by simpa [hnone] using ih hxs
      simp [hp, hnone, hrest]

theorem take_drop_countP {xs : List α} (h : xs.Pairwise fun a b => p b = true → p a = true) :
    xs.take (xs.countP p) = xs.filter p ∧ xs.drop (xs.countP p) = xs.filter (!p ·) := by
  have happend := filter_append_filter_not h
  have htake : xs.filter p = xs.take (xs.filter p).length := List.prefix_iff_eq_take.1 ⟨_, happend⟩
  rw [List.countP_eq_length_filter]
  refine ⟨htake.symm, List.append_cancel_left (?_ : xs.filter p ++ _ = xs.filter p ++ _)⟩
  rw [happend]
  nth_rewrite 1 [htake]
  exact List.take_append_drop _ _

structure Moved (old new : List π) (sel : List Nat) (place : Int) : Prop where
  perm : (moveOrder old.length sel place).Perm (List.range old.length)
  order : moveOrder old.length sel place =
    (List.range old.length).filter (fun i => i ∉ sel ∧ (i : Int) < place) ++ sel ++
      (List.range old.length).filter (fun i => i ∉ sel ∧ place ≤ i)
  pages : new = (moveOrder old.length sel place).filterMap (old[·]?)

theorem moveOrder_eq (n : Nat) (sel : List Nat) (place : Int) :
    moveOrder n sel place =
      (List.range n).filter (fun i => i ∉ sel ∧ (i : Int) < place) ++ sel ++
        (List.range n).filter (fun i => i ∉ sel ∧ place ≤ i) := by
  let p : Nat → Bool := fun i => decide ((i : Int) < place)
  set rest := (List.range n).filter (· ∉ sel) with hrest
  have hsorted : rest.Pairwise fun a b => p b = true → p a = true := by
    apply (List.pairwise_lt_range.filter _).imp
    intro a b hab hb
    simp only [p, decide_eq_true_eq] at hb ⊢
    omega
  obtain ⟨htake, hdrop⟩ := take_drop_countP hsorted
  have hbelow : rest.filter p = (List.range n).filter (fun i => i ∉ sel ∧ (i : Int) < place) := by
    rw [hrest, List.filter_filter]
    exact List.filter_congr fun i _ => by simp [p, Bool.and_comm]
  have habove : rest.filter (!p ·) = (List.range n).filter (fun i => i ∉ sel ∧ place ≤ i) := by
    rw [hrest, List.filter_filter]
    apply List.filter_congr
    intro i _
    simp only [p, ← decide_not, not_lt, ← Bool.decide_and]
    exact decide_eq_decide.2 and_comm
  rw [← hbelow, ← habove, ← htake, ← hdrop]
  rfl

example : moveOrder 6 [1, 4] 3 = [0, 2, 1, 4, 3, 5] := by decide

theorem moveOrder_perm {sel : List Nat} (hsel : sel.Pairwise (· < ·)) (hlt : ∀ i ∈ sel, i < n)
    (place : Int) : (moveOrder n sel place).Perm (List.range n) := by
  have hin : sel.Perm ((List.range n).filter (· ∈ sel)) := by
    apply (List.perm_ext_iff_of_nodup (hsel.imp ne_of_lt) (List.nodup_range.filter _)).2
    intro i
    simp only [List.mem_filter, List.mem_range, decide_eq_true_eq]
    exact ⟨fun h => ⟨hlt i h, h⟩, fun h => h.2⟩
  set rest := (List.range n).filter (· ∉ sel)
  calc moveOrder n sel place
      _ = rest.take _ ++ sel ++ rest.drop _ := rfl
      _ ~ sel ++ (rest.take _ ++ rest.drop _) := by
        rw [← List.append_assoc]
        exact List.perm_append_comm.append_right _
      _ = sel ++ rest := by rw [List.take_append_drop]
      _ ~ (List.range n).filter (· ∈ sel) ++ rest := hin.append_right _
      _ ~ List.range n := by simpa [rest] using List.filter_append_perm (· ∈ sel) (List.range n)

theorem select_range (pages : List π) : select pages (List.range pages.length) = pages := by
  induction pages with
  | nil => rfl
  | cons p pages ih =>
    rw [List.length_cons, List.range_succ_eq_map]
    simpa [select, List.filterMap_map, Function.comp_def] using ih

def MovedFor (t : Texts) (pages place : Str) (s s' : State (List π)) : Prop :=
  ∃ old new sel dest, s.pages = some old ∧ s'.pages = some new ∧ parsePages t pages old.length = .ok sel ∧
    Selected t pages old.length sel ∧ t.int place = some dest ∧ Moved old new sel dest

theorem ends_move (pages place : Str) :
    (move t mu trouble pages place).Ends s (fun _ => MovedFor t pages place s) fun _ _ => True := by
  apply ends_needDoc_bind
  intro d hdoc
  have hold : s.pages = some d.file.content := by simp [State.pages, hdoc]
  cases hsel : parsePages t pages d.file.content.length with
  | error e =>
    simp only [hsel]
    trivial
  | ok sel =>
    simp only [hsel]
    cases hdest : t.int place with
    | none => trivial
    | some dest =>
      have hselected := selected_of_parsePages hsel
      have hmoved : Moved d.file.content (select d.file.content (moveOrder d.file.content.length sel dest)) sel dest :=
        ⟨moveOrder_perm hselected.ascending hselected.lt dest, moveOrder_eq _ _ _, rfl⟩
      simp only
      split
      · trivial
      · split
        · next hsame =>
          rw [hsame, select_range] at hmoved
          exact (ends_state_pages hold).mono (fun _ s' hs' => ⟨_, _, sel, dest, hold, hs', hsel, hselected, hdest, hmoved⟩)
            fun _ _ _ => trivial
        · exact (ends_edit_pages hdoc _).mono (fun _ s' hs' => ⟨_, _, sel, dest, hold, hs', hsel, hselected, hdest, hmoved⟩)
            fun _ _ _ => trivial

theorem insert_erase_eq_set {pages src : List π} (hi : i < pages.length) (hpage : page < src.length) :
    (insertPdf pages src page page i).eraseIdx (i + 1) = pages.set i src[page] := by
  have hone : (src.drop page).take (page + 1 - page) = [src[page]] := by
    rw [Nat.add_sub_cancel_left, List.drop_eq_getElem_cons hpage]
    rfl
  have hlength : (pages.take i ++ [src[page]]).length = i + 1 := by simp [hi.le]
  rw [insertPdf, hone, List.eraseIdx_append_of_length_le hlength.le, hlength, Nat.sub_self,
    List.drop_eq_getElem_cons hi, List.eraseIdx_cons_zero, List.set_eq_take_append_cons_drop, if_pos hi,
    List.append_assoc]
  rfl

structure Replaced (old new src : List π) (sel : List Nat) (first : Nat) : Prop where
  length : new.length = old.length
  other : ∀ i ∉ sel, new[i]? = old[i]?
  there : ∀ k i, sel[k]? = some i → i < old.length ∧ first + k < src.length ∧ new[i]? = src[first + k]?

-- The pages still to come are other ones, so none is replaced twice.
theorem replaced_replaceLoop (src : List π) {sel : List Nat} {old : List π} (first : Nat)
    (hsel : sel.Pairwise (· < ·)) (hlt : ∀ i ∈ sel, i < old.length) (hsrc : first + sel.length ≤ src.length) :
    Replaced old (replaceLoop src first sel old) src sel first := by
  induction sel generalizing old first with
  | nil => exact ⟨rfl, fun _ _ => rfl, by simp⟩
  | cons i sel ih =>
    obtain ⟨hi, hsel⟩ := List.pairwise_cons.1 hsel
    have hiold : i < old.length := hlt i List.mem_cons_self
    have hfirst : first < src.length := by
      rw [List.length_cons] at hsrc
      omega
    rw [replaceLoop, insert_erase_eq_set hiold hfirst]
    have hrest : Replaced (old.set i src[first]) _ src sel (first + 1) := ih (first + 1) hsel
      (fun j hj => by simpa using hlt j (List.mem_cons_of_mem i hj))
      (by rw [List.length_cons] at hsrc; omega)
    have hinot : i ∉ sel := fun h => lt_irrefl i (hi i h)
    refine ⟨by simpa using hrest.length, ?_, ?_⟩
    · intro j hj
      rw [List.mem_cons, not_or] at hj
      rw [hrest.other j hj.2, List.getElem?_set_ne (Ne.symm hj.1)]
    · intro k j hk
      cases k with
      | zero =>
        cases hk
        refine ⟨hiold, hfirst, ?_⟩
        rw [hrest.other i hinot, List.getElem?_set_self hiold, Nat.add_zero, List.getElem?_eq_getElem hfirst]
      | succ k =>
        obtain ⟨hj, hbound, hget⟩ := hrest.there k j hk
        rw [List.length_set] at hj
        exact ⟨hj, by omega, by rw [hget, Nat.add_assoc, Nat.add_comm 1 k]⟩

def ReplacedFor (t : Texts) (other : Except Raised (List π)) (pages start : Str) (s s' : State (List π)) : Prop :=
  ∃ old new src sel, ∃ first : Nat, s.pages = some old ∧ s'.pages = some new ∧ other = .ok src ∧
    parsePages t pages old.length = .ok sel ∧ Selected t pages old.length sel ∧
    (if start = [] then some 1 else t.int start) = some ((first : Int) + 1) ∧ Replaced old new src sel first

theorem ends_replacepages (openOther : Str → Str → Except Raised (List π)) (pages path start pw : Str) :
    (replacepages t mu trouble openOther pages path start pw).Ends s
      (fun _ => ReplacedFor t (openOther (unesc path) (unesc pw)) pages start s) fun _ _ => True := by
  apply ends_needDoc_bind
  intro d hdoc
  have hold : s.pages = some d.file.content := by simp [State.pages, hdoc]
  cases hsel : parsePages t pages d.file.content.length with
  | error e => trivial
  | ok sel =>
    cases hother : openOther (unesc path) (unesc pw) with
    | error e => trivial
    | ok src =>
      cases hstart : (if start = [] then some 1 else t.int start) with
      | none => trivial
      | some start =>
        simp only
        split
        · trivial
        · next hin =>
          have hselected := selected_of_parsePages hsel
          have hsort : sel.insertionSort (· ≤ ·) = sel :=
            (hselected.ascending.imp fun h => h.le).insertionSort_eq
          have hreplaced := replaced_replaceLoop src (start - 1).toNat hselected.ascending hselected.lt (by omega)
          rw [hsort]
          exact (ends_edit_pages hdoc _).mono (fun _ s' hs' => ⟨_, _, src, sel, (start - 1).toNat, hold, hs', rfl,
            hsel, hselected, by rw [Int.toNat_of_nonneg (by omega)]; simpa using hstart, hreplaced⟩) fun _ _ _ => trivial

structure Parts (pages : List π) (every : Nat) (parts : List (List π)) : Prop where
  flatten : parts.flatten = pages
  length : ∀ part ∈ parts.dropLast, part.length = every

theorem parts_splitLoop {pages : List π}
    (start : Nat) {parts : List (Str × List π)} (hevery : 0 < every) (hend : pages.length ≤ start + m * every)
    (hlast : ∀ j < m, start + j * every < pages.length)
    (h : splitLoop writeNew pages every folder base k (List.range' start m every) = .ok parts) :
    Parts (pages.drop start) every (parts.map Prod.snd) ∧ parts.length = m := by
  induction m generalizing start k parts with
  | zero =>
    cases h
    exact ⟨⟨(List.drop_of_length_le (by omega)).symm, by simp⟩, rfl⟩
  | succ m ih =>
    rw [List.range'_succ, splitLoop] at h
    split at h
    · cases h
    · obtain ⟨rest, hrest, h⟩ := bind_eq_ok h
      cases h
      have hstart : start < pages.length := by simpa using hlast 0 (Nat.succ_pos m)
      obtain ⟨hparts, hlength⟩ := ih (start + every)
        (by rw [Nat.succ_mul] at hend; omega)
        (fun j hj => by
          have := hlast (j + 1) (by omega)
          rw [Nat.succ_mul] at this
          omega) hrest
      have hpart : insertPdf [] pages start (min pages.length (start + every) - 1) 0 =
          (pages.drop start).take every := by
        simp only [insertPdf, List.take_nil, List.nil_append, List.drop_nil, List.append_nil]
        rw [List.take_eq_take_iff, List.length_drop]
        omega
      refine ⟨⟨?_, ?_⟩, by simp [hlength]⟩
      · rw [List.map_cons, List.flatten_cons, hparts.flatten, hpart, ← List.drop_drop, List.take_append_drop]
      · intro part hmem
        cases rest with
        | nil => simp at hmem
        | cons r rest =>
          rw [List.map_cons, List.map_cons, List.dropLast_cons_cons, List.mem_cons] at hmem
          rcases hmem with rfl | hmem
          · have := hlast 1 (by rw [← hlength, List.length_cons]; omega)
            rw [hpart, List.length_take, List.length_drop]
            omega
          · exact hparts.length part hmem

def SplitFor (t : Texts) (every : Str) (s : State (List π)) (parts : List (Str × List π)) : Prop :=
  ∃ old, ∃ n : Nat, s.pages = some old ∧ t.int every = some (n : Int) ∧ 0 < n ∧ Parts old n (parts.map Prod.snd)

theorem ends_split (isDir : Str → Bool) (writeNew : Str → Option Raised) (every folder base : Str) :
    (split t isDir writeNew every folder base).Ends s (fun a _ => SplitFor t every s a.1) fun _ _ => True := by
  apply ends_needDoc_bind
  intro d hdoc
  have hold : s.pages = some d.file.content := by simp [State.pages, hdoc]
  cases hevery : t.int every with
  | none => trivial
  | some every =>
    simp only
    split
    · trivial
    · next hpos =>
      split
      · trivial
      · obtain ⟨n, rfl⟩ := Int.eq_ofNat_of_zero_le (show 0 ≤ every by omega)
        rw [Int.toNat_natCast]
        have hn : 0 < n := by omega
        split
        · trivial
        · next parts hparts =>
          refine ⟨_, n, hold, hevery, hn, ?_⟩
          exact (parts_splitLoop 0 hn (by
            have := Nat.lt_div_mul_add hn (a := d.file.content.length + n - 1)
            omega) (fun j hj => by
            have := (Nat.le_div_iff_mul_le hn).1 (Nat.succ_le_of_lt hj)
            rw [Nat.succ_mul] at this
            omega) hparts).1

/-- Where the commands are accepted, the pages are moved, replaced and split as they ask. -/
theorem pages_of_accepted (t : Texts) (mu : Mupdf (List π)) (trouble : Option Raised) (s : State (List π)) :
    (∀ pages place, (move t mu trouble pages place).Ends s (fun _ => MovedFor t pages place s) fun _ _ => True) ∧
    (∀ openOther pages path start pw, (replacepages t mu trouble openOther pages path start pw).Ends s
      (fun _ => ReplacedFor t (openOther (unesc path) (unesc pw)) pages start s) fun _ _ => True) ∧
    ∀ isDir writeNew every folder base, (split t isDir writeNew every folder base).Ends s
      (fun a _ => SplitFor t every s a.1) fun _ _ => True :=
  ⟨ends_move, ends_replacepages, ends_split⟩

def asciiTexts : Texts := ⟨.ascii, fun s => (digitsValue Unicode.ascii.digit s).map Int.ofNat⟩

def sixPages : State (List Nat) :=
  State.made [10, 11, 12, 13, 14, 15] ⟨none, none, none, permAll, false, none, [], [], false, []⟩

example : (move asciiTexts ⟨fun _ => 0, fun _ => false, fun _ _ => 1⟩ none (str "4, 2-1") (str "6") sixPages).2.pages =
    some [10, 13, 15, 11, 12, 14] := by decide +kernel

end StainedGlass.Pdf.Engine
