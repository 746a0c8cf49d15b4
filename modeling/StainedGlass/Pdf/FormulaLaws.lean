import StainedGlass.Pdf.Formula

namespace StainedGlass.Pdf.Forms

open Lib

inductive Level
  | factor
  | product
  | sum

inductive Tree (digit : Nat → Option Nat) : Level → Type
  | num (text : Str) (x : ℚ) (h : decimal? digit text = some x) : Tree digit .factor
  | name (n : Str) : Tree digit .factor
  | neg (f : Tree digit .factor) : Tree digit .factor
  | pos (f : Tree digit .factor) : Tree digit .factor
  | bracket (s : Tree digit .sum) : Tree digit .factor
  | factor (f : Tree digit .factor) : Tree digit .product
  | mul (p : Tree digit .product) (f : Tree digit .factor) : Tree digit .product
  | div (p : Tree digit .product) (f : Tree digit .factor) : Tree digit .product
  | product (p : Tree digit .product) : Tree digit .sum
  | add (s : Tree digit .sum) (p : Tree digit .product) : Tree digit .sum
  | sub (s : Tree digit .sum) (p : Tree digit .product) : Tree digit .sum

variable {digit : Nat → Option Nat}

namespace Tree

def tokens : {l : Level} → Tree digit l → List Token
  | _, num text _ _ => [.num text]
  | _, name n => [.name n]
  | _, neg f => .op .minus :: f.tokens
  | _, pos f => .op .plus :: f.tokens
  | _, bracket s => .op .left :: (s.tokens ++ [.op .right])
  | _, factor f => f.tokens
  | _, mul p f => p.tokens ++ .op .star :: f.tokens
  | _, div p f => p.tokens ++ .op .slash :: f.tokens
  | _, product p => p.tokens
  | _, add s p => s.tokens ++ .op .plus :: p.tokens
  | _, sub s p => s.tokens ++ .op .minus :: p.tokens

def value (valueOf : Str → ℚ) : {l : Level} → Tree digit l → ℚ
  | _, num _ x _ => x
  | _, name n => valueOf n
  | _, neg f => -f.value valueOf
  | _, pos f => f.value valueOf
  | _, bracket s => s.value valueOf
  | _, factor f => f.value valueOf
  | _, mul p f => p.value valueOf * f.value valueOf
  | _, div p f => if f.value valueOf = 0 then 0 else p.value valueOf / f.value valueOf
  | _, product p => p.value valueOf
  | _, add s p => s.value valueOf + p.value valueOf
  | _, sub s p => s.value valueOf - p.value valueOf

end Tree

namespace Parser

def joinSum (digit : Nat → Option Nat) : Op → Option (Tree digit .sum → Tree digit .product → Tree digit .sum)
  | .plus => some .add
  | .minus => some .sub
  | _ => none

def joinProduct (digit : Nat → Option Nat) :
    Op → Option (Tree digit .product → Tree digit .factor → Tree digit .product)
  | .star => some .mul
  | .slash => some .div
  | _ => none

abbrev Reader (digit : Nat → Option Nat) (l : Level) := List Token → Result (Tree digit l)

def termTree (factor : Reader digit .factor) : Reader digit .product :=
  chained factor .factor (joinProduct digit)

def exprTree (factor : Reader digit .factor) : Reader digit .sum :=
  chained (termTree factor) .product (joinSum digit)

def Result.map {α β : Type} (f : α → β) : Result α → Result β := Except.map (Prod.map f id)

def factorTree (digit : Nat → Option Nat) : Nat → Reader digit .factor
  | 0, _ => .error endsTooSoon
  | _ + 1, [] => .error endsTooSoon
  | _ + 1, .num text :: ts =>
    match h : decimal? digit text with
    | some v => .ok (.num text v h, ts)
    | none => .error .value
  | _ + 1, .name n :: ts => .ok (.name n, ts)
  | n + 1, .op .minus :: ts => Result.map .neg (factorTree digit n ts)
  | n + 1, .op .plus :: ts => Result.map .pos (factorTree digit n ts)
  | n + 1, .op .left :: ts => Result.map .bracket (closed (exprTree (factorTree digit n) ts))
  | _ + 1, .op _ :: _ => .error misplaced

section Map

variable {α α' β β' : Type} {operand : List Token → Result β} {operand' : List Token → Result β'}
  {combine : Op → Option (α → β → α)} {combine' : Op → Option (α' → β' → α')} {f : α → α'} {g : β → β'}

def Alike (combine : Op → Option (α → β → α)) (combine' : Op → Option (α' → β' → α')) (f : α → α')
    (g : β → β') : Prop :=
  ∀ o, Option.Rel (fun k k' => ∀ v w, f (k v w) = k' (f v) (g w)) (combine o) (combine' o)

theorem chain_map (hoperand : ∀ ts, operand' ts = (operand ts).map g) (halike : Alike combine combine' f g)
    (n : Nat) (v : α) (ts : List Token) :
    chain operand' combine' n (f v) ts = Result.map f (chain operand combine n v ts) := by
  induction n generalizing v ts with
  | zero => rfl
  | succ n ih =>
    cases ts with
    | nil => rfl
    | cons t ts =>
      cases t with
      | num text => rfl
      | name n => rfl
      | op o =>
        rw [chain, chain, hoperand]
        have ho := halike o
        generalize combine o = k, combine' o = k' at ho
        cases ho with
        | none => rfl
        | some hk =>
          cases operand ts with
          | error e => rfl
          | ok r => exact (congrArg (chain operand' combine' n · r.2) (hk v r.1)).symm.trans (ih _ _)

theorem chained_map (hoperand : ∀ ts, operand' ts = (operand ts).map g)
    (hfirst : ∀ w, first' (g w) = f (first w)) (halike : Alike combine combine' f g) (ts : List Token) :
    chained operand' first' combine' ts = Result.map f (chained operand first combine ts) := by
  rw [chained, chained, hoperand]
  cases operand ts with
  | error e => rfl
  | ok r =>
    change chain operand' combine' r.2.length (first' (g r.1)) r.2 = _
    rw [hfirst]
    exact chain_map hoperand halike _ _ _

theorem closed_map (r : Result α) : closed (Result.map f r) = Result.map f (closed r) := by
  cases r with
  | error e => rfl
  | ok r =>
    obtain ⟨v, ts⟩ := r
    cases ts with
    | nil => rfl
    | cons t ts =>
      cases t with
      | num text => rfl
      | name n => rfl
      | op o => cases o <;> rfl

end Map

variable (valueOf : Str → ℚ)

theorem alike_product : Alike (joinProduct digit) productOp (Tree.value valueOf) (Tree.value valueOf) := by
  intro o
  cases o with
  | star => exact .some fun v w => rfl
  | slash =>
    refine .some fun v w => ?_
    rw [Tree.value, ite_not]
  | plus => exact .none
  | minus => exact .none
  | left => exact .none
  | right => exact .none

theorem alike_sum : Alike (joinSum digit) sumOp (Tree.value valueOf) (Tree.value valueOf) := by
  intro o
  cases o with
  | plus => exact .some fun v w => rfl
  | minus => exact .some fun v w => rfl
  | star => exact .none
  | slash => exact .none
  | left => exact .none
  | right => exact .none

theorem expr_map {factor : List Token → Result ℚ} {read : Reader digit .factor}
    (h : ∀ ts, factor ts = Result.map (Tree.value valueOf) (read ts)) (ts : List Token) :
    expr factor ts = Result.map (Tree.value valueOf) (exprTree read ts) := by
  have hterm (ts : List Token) : term factor ts = Result.map (Tree.value valueOf) (termTree read ts) := by
    rw [term, termTree]
    apply chained_map h _ (alike_product valueOf)
    exact fun _ => rfl
  rw [expr, exprTree]
  apply chained_map hterm _ (alike_sum valueOf)
  exact fun _ => rfl

theorem factor_map (n : Nat) (ts : List Token) :
    factor digit valueOf n ts = Result.map (Tree.value valueOf) (factorTree digit n ts) := by
  induction n generalizing ts with
  | zero => rfl
  | succ n ih =>
    cases ts with
    | nil => rfl
    | cons t ts =>
      cases t with
      | num text =>
        rw [factor, factorTree]
        split
        · next v hv =>
          split
          · next v' hv' =>
            obtain rfl := Option.some.inj (hv.symm.trans hv')
            rfl
          · next hv' => cases hv.symm.trans hv'
        · next hv =>
          split
          · next v' hv' => cases hv.symm.trans hv'
          · rfl
      | name n => rfl
      | op o =>
        cases o with
        | minus =>
          rw [factor, ih, factorTree]
          cases factorTree digit n ts <;> rfl
        | plus =>
          rw [factor, ih, factorTree]
          cases factorTree digit n ts <;> rfl
        | left =>
          rw [factor, expr_map valueOf ih, closed_map, factorTree]
          cases closed (exprTree (factorTree digit n) ts) <;> rfl
        | star => rfl
        | slash => rfl
        | right => rfl

def Faithful {l : Level} (read : Reader digit l) : Prop :=
  ∀ ts t rest, read ts = .ok (t, rest) → t.tokens ++ rest = ts

def Joins {low high : Level} (combine : Op → Option (Tree digit high → Tree digit low → Tree digit high)) : Prop :=
  ∀ o k, combine o = some k → ∀ v w, (k v w).tokens = v.tokens ++ .op o :: w.tokens

theorem joins_product : Joins (joinProduct digit) := by
  intro o k hk
  cases o <;> cases hk <;> exact fun v w => rfl

theorem joins_sum : Joins (joinSum digit) := by
  intro o k hk
  cases o <;> cases hk <;> exact fun v w => rfl

section Chain

variable {low high : Level} {operand : Reader digit low}
  {combine : Op → Option (Tree digit high → Tree digit low → Tree digit high)}

theorem tokens_chain (hoperand : Faithful operand) (hjoins : Joins combine) {v v' : Tree digit high}
    (h : chain operand combine n v ts = .ok (v', rest)) : v'.tokens ++ rest = v.tokens ++ ts := by
  induction n generalizing v ts with
  | zero =>
    cases h
    rfl
  | succ n ih =>
    cases ts with
    | nil =>
      cases h
      rfl
    | cons t ts =>
      cases t with
      | num text =>
        cases h
        rfl
      | name n =>
        cases h
        rfl
      | op o =>
        rw [chain] at h
        cases hk : combine o with
        | none =>
          rw [hk] at h
          cases h
          rfl
        | some k =>
          rw [hk] at h
          cases hr : operand ts with
          | error e =>
            rw [hr] at h
            cases h
          | ok r =>
            rw [hr] at h
            rw [ih h, hjoins o k hk, ← hoperand ts r.1 r.2 hr]
            simp

theorem faithful_chained (hoperand : Faithful operand)
    (hfirst : ∀ w, (first w).tokens = w.tokens) (hjoins : Joins combine) :
    Faithful (chained operand first combine) := by
  intro ts t rest h
  rw [chained] at h
  cases hr : operand ts with
  | error e =>
    rw [hr] at h
    cases h
  | ok r =>
    rw [hr] at h
    rw [tokens_chain hoperand hjoins h, hfirst, hoperand ts r.1 r.2 hr]

theorem chained_ok {ts rest : List Token} (h : operand ts = .ok (w, rest)) :
    chained operand first combine ts = chain operand combine rest.length (first w) rest := by
  rw [chained, h]

theorem chain_count (hoperand : Faithful operand) {ts : List Token} (hm : ts.length ≤ m) (hn : ts.length ≤ n) :
    chain operand combine m v ts = chain operand combine n v ts := by
  induction m generalizing n v ts with
  | zero =>
    obtain rfl := List.length_eq_zero_iff.mp (Nat.le_zero.mp hm)
    cases n <;> rfl
  | succ m ih =>
    cases ts with
    | nil => cases n <;> rfl
    | cons t ts =>
      obtain ⟨n, rfl⟩ := Nat.exists_eq_add_of_le' (Nat.le_trans (Nat.succ_le_succ (Nat.zero_le _)) hn)
      cases t with
      | num text => rfl
      | name n => rfl
      | op o =>
        rw [chain, chain]
        cases combine o with
        | none => rfl
        | some k =>
          cases hr : operand ts with
          | error e => rfl
          | ok r =>
            have hlength := congrArg List.length (hoperand ts r.1 r.2 hr)
            rw [List.length_append] at hlength
            rw [List.length_cons] at hm hn
            exact ih (by omega) (by omega)

theorem chain_stops {ts : List Token} (h : ∀ o ∈ ts.head?, ∀ o', o = .op o' → combine o' = none) :
    chain operand combine n v ts = .ok (v, ts) := by
  cases n with
  | zero => rfl
  | succ n =>
    cases ts with
    | nil => rfl
    | cons t ts =>
      cases t with
      | num text => rfl
      | name n => rfl
      | op o =>
        rw [chain, h _ rfl o rfl]

end Chain

theorem faithful_termTree {read : Reader digit .factor} (h : Faithful read) : Faithful (termTree read) :=
  faithful_chained h (fun _ => rfl) joins_product

theorem faithful_exprTree {read : Reader digit .factor} (h : Faithful read) : Faithful (exprTree read) :=
  faithful_chained (faithful_termTree h) (fun _ => rfl) joins_sum

variable {rest : List Token}

theorem Result.map_eq_ok (h : Result.map f r = .ok (v, rest)) : ∃ w, r = .ok (w, rest) ∧ f w = v := by
  cases r with
  | error e => cases h
  | ok r =>
    cases h
    exact ⟨r.1, rfl, rfl⟩

theorem closed_eq_ok (h : closed r = .ok (v, rest)) : r = .ok (v, .op .right :: rest) := by
  cases r with
  | error e => cases h
  | ok r =>
    obtain ⟨w, ts⟩ := r
    cases ts with
    | nil => cases h
    | cons t ts =>
      cases t with
      | num text => cases h
      | name n => cases h
      | op o =>
        cases o with
        | right =>
          cases h
          rfl
        | plus => cases h
        | minus => cases h
        | star => cases h
        | slash => cases h
        | left => cases h

theorem faithful_factorTree (n : Nat) : Faithful (factorTree digit n) := by
  induction n with
  | zero => exact fun ts t rest h => by cases h
  | succ n ih =>
    intro ts t rest h
    cases ts with
    | nil => cases h
    | cons head ts =>
      cases head with
      | num text =>
        rw [factorTree] at h
        split at h
        · cases h
          rfl
        · cases h
      | name n =>
        cases h
        rfl
      | op o =>
        cases o with
        | minus =>
          obtain ⟨w, hw, rfl⟩ := Result.map_eq_ok h
          rw [Tree.tokens, List.cons_append, ih ts w rest hw]
        | plus =>
          obtain ⟨w, hw, rfl⟩ := Result.map_eq_ok h
          rw [Tree.tokens, List.cons_append, ih ts w rest hw]
        | left =>
          obtain ⟨w, hw, rfl⟩ := Result.map_eq_ok h
          rw [Tree.tokens, List.cons_append, List.append_assoc, List.singleton_append,
            faithful_exprTree ih ts w _ (closed_eq_ok hw)]
        | star => cases h
        | slash => cases h
        | right => cases h

def EndsProduct (rest : List Token) : Prop := ∀ t ∈ rest.head?, t ≠ .op .star ∧ t ≠ .op .slash

def Read (n : Nat) : {l : Level} → Tree digit l → Prop
  | .factor, f => ∀ rest, factorTree digit n (f.tokens ++ rest) = .ok (f, rest)
  | .product, p => ∀ rest, termTree (factorTree digit n) (p.tokens ++ rest) =
      chain (factorTree digit n) (joinProduct digit) rest.length p rest
  | .sum, s => ∀ rest, EndsProduct rest → exprTree (factorTree digit n) (s.tokens ++ rest) =
      chain (termTree (factorTree digit n)) (joinSum digit) rest.length s rest

variable {p : Tree digit .product}

theorem chain_product_stops (h : EndsProduct rest) :
    chain (factorTree digit n) (joinProduct digit) m p rest = .ok (p, rest) := by
  apply chain_stops
  rintro t ht o rfl
  cases o with
  | star => exact absurd rfl (h _ ht).1
  | slash => exact absurd rfl (h _ ht).2
  | plus => rfl
  | minus => rfl
  | left => rfl
  | right => rfl

theorem read_mul (ho : joinProduct digit o = some k) (hp : Read n p) (hf : Read n f) : Read n (k p f) := by
  intro rest
  rw [joins_product o k ho, List.append_assoc, List.cons_append, hp, List.length_cons, chain, ho]
  simp only [hf rest]
  refine chain_count (faithful_factorTree n) ?_ le_rfl
  rw [List.length_append]
  omega

theorem read_add {k : Tree digit .sum → Tree digit .product → Tree digit .sum} (ho : joinSum digit o = some k)
    (hs : Read n s) (hp : Read n p) : Read n (k s p) := by
  intro rest hrest
  have hends : EndsProduct (.op o :: (p.tokens ++ rest)) := by
    rintro t ⟨⟩
    cases o <;> cases ho <;> simp
  rw [joins_sum o k ho, List.append_assoc, List.cons_append, hs _ hends, List.length_cons, chain, ho]
  simp only [hp rest, chain_product_stops hrest]
  refine chain_count (faithful_termTree (faithful_factorTree n)) ?_ le_rfl
  rw [List.length_append]
  omega

theorem read_tree (t : Tree digit l) (hn : t.tokens.length ≤ n) : Read n t := by
  induction t generalizing n with
  | num text x h =>
    obtain ⟨n, rfl⟩ := Nat.exists_eq_add_of_le' hn
    intro rest
    change factorTree digit (n + 1) (.num text :: rest) = _
    rw [factorTree]
    split
    · next v hv =>
      obtain rfl := Option.some.inj (hv.symm.trans h)
      rfl
    · next hv => cases hv.symm.trans h
  | name s =>
    obtain ⟨n, rfl⟩ := Nat.exists_eq_add_of_le' hn
    intro rest
    rfl
  | neg f ih =>
    rw [Tree.tokens, List.length_cons] at hn
    obtain ⟨n, rfl⟩ := Nat.exists_eq_add_of_le' (Nat.le_trans (Nat.succ_le_succ (Nat.zero_le _)) hn)
    intro rest
    change Result.map Tree.neg (factorTree digit n (f.tokens ++ rest)) = _
    rw [ih (Nat.le_of_succ_le_succ hn) rest]
    rfl
  | pos f ih =>
    rw [Tree.tokens, List.length_cons] at hn
    obtain ⟨n, rfl⟩ := Nat.exists_eq_add_of_le' (Nat.le_trans (Nat.succ_le_succ (Nat.zero_le _)) hn)
    intro rest
    change Result.map Tree.pos (factorTree digit n (f.tokens ++ rest)) = _
    rw [ih (Nat.le_of_succ_le_succ hn) rest]
    rfl
  | bracket s ih =>
    rw [Tree.tokens, List.length_cons, List.length_append] at hn
    obtain ⟨n, rfl⟩ := Nat.exists_eq_add_of_le' (Nat.le_trans (Nat.succ_le_succ (Nat.zero_le _)) hn)
    intro rest
    have hends : EndsProduct (.op .right :: rest) := by
      rintro t ⟨⟩
      simp
    have hstop : chain (termTree (factorTree digit n)) (joinSum digit) (rest.length + 1) s
        (.op .right :: rest) = .ok (s, .op .right :: rest) := rfl
    change Result.map Tree.bracket (closed (exprTree (factorTree digit n) ((s.tokens ++ [.op .right]) ++ rest))) = _
    rw [List.append_assoc, List.singleton_append, ih (by omega) _ hends, List.length_cons, hstop]
    rfl
  | factor f ih =>
    intro rest
    exact chained_ok (ih hn rest)
  | mul p f ihp ihf =>
    rw [Tree.tokens, List.length_append, List.length_cons] at hn
    exact read_mul (o := .star) rfl (ihp (by omega)) (ihf (by omega))
  | div p f ihp ihf =>
    rw [Tree.tokens, List.length_append, List.length_cons] at hn
    exact read_mul (o := .slash) rfl (ihp (by omega)) (ihf (by omega))
  | product p ih =>
    intro rest hrest
    exact chained_ok ((ih hn rest).trans (chain_product_stops hrest))
  | add s p ihs ihp =>
    rw [Tree.tokens, List.length_append, List.length_cons] at hn
    exact read_add (o := .plus) rfl (ihs (by omega)) (ihp (by omega))
  | sub s p ihs ihp =>
    rw [Tree.tokens, List.length_append, List.length_cons] at hn
    exact read_add (o := .minus) rfl (ihs (by omega)) (ihp (by omega))

def parseTree (digit : Nat → Option Nat) (ts : List Token) : Except Failure (Tree digit .sum) :=
  match exprTree (factorTree digit ts.length) ts with
  | .ok (t, []) => .ok t
  | .ok _ => .error endsTooLate
  | .error e => .error e

theorem parse_map (ts : List Token) :
    parse digit valueOf ts = (parseTree digit ts).map (Tree.value valueOf) := by
  rw [parse, parseTree, expr_map valueOf (factor_map valueOf ts.length)]
  cases exprTree (factorTree digit ts.length) ts with
  | error e => rfl
  | ok r =>
    obtain ⟨t, rest⟩ := r
    cases rest <;> rfl

theorem parseTree_iff {ts : List Token} {t : Tree digit .sum} : parseTree digit ts = .ok t ↔ t.tokens = ts := by
  constructor
  · intro h
    rw [parseTree] at h
    split at h
    · next t' hr =>
      cases h
      rw [← faithful_exprTree (faithful_factorTree _) _ _ _ hr, List.append_nil]
    · cases h
    · cases h
  · rintro rfl
    have hread := read_tree t (n := t.tokens.length) le_rfl [] (by simp [EndsProduct])
    rw [List.append_nil] at hread
    rw [parseTree, hread]
    rfl

end Parser

/-- The parser accepts the sentences of the grammar and returns the value of the one parse. -/
theorem parse_is_grammar (digit : Nat → Option Nat) (ts : List Token) :
    (∀ valueOf v, Parser.parse digit valueOf ts = .ok v ↔
      ∃ t : Tree digit .sum, t.tokens = ts ∧ t.value valueOf = v) ∧
    {t : Tree digit .sum | t.tokens = ts}.Subsingleton ∧
    ∀ valueOf valueOf', (Parser.parse digit valueOf ts).isOk = (Parser.parse digit valueOf' ts).isOk := by
  refine ⟨fun valueOf v => ?_, ?_, fun valueOf valueOf' => ?_⟩
  · rw [Parser.parse_map]
    simp only [← Parser.parseTree_iff]
    cases Parser.parseTree digit ts with
    | error e => simp [Except.map]
    | ok t => simp [Except.map]
  · intro t ht t' ht'
    have h := (Parser.parseTree_iff.mpr ht).symm.trans (Parser.parseTree_iff.mpr ht')
    exact Except.ok.inj h
  · rw [Parser.parse_map, Parser.parse_map]
    cases Parser.parseTree digit ts <;> rfl

end StainedGlass.Pdf.Forms
