import DocComment.Proofs.Text.Slice
import DocComment.Proofs.TypeExpr.Runs

/-!
# Counting what is open

The readers of types know by their arguments whether they are between brackets and how many levels
may still be opened. Here the same types are read by readers that share one cursor and count: they
go back to a place by moving the cursor only, and what they have opened they close themselves.
-/

namespace DocComment.TypeExpr

open Text

/-! ### Readers with a cursor -/

/-- A place in a text, and what is open there. -/
structure Cursor where
  /-- The text from here on. -/
  rest : Text
  /-- The brackets that are open. -/
  depth : Nat
  /-- The number of `?`, `(` and `<` that are open. -/
  nesting : Nat
  deriving DecidableEq, Repr, Inhabited

/-- Why a reader that counts gives no answer. -/
inductive Cursor.Fault where
  /-- More is closed than is open. -/
  | underflow
  /-- The reading does not end. -/
  | endless
  deriving DecidableEq, Repr, Inhabited

/-- A reader that moves the cursor and counts. -/
abbrev Counted (α : Type) := StateT Cursor (Except Cursor.Fault) α

namespace Counted

/-- Moves the cursor, and leaves the counts as they are. -/
def moveTo (s : Text) : Counted Unit := modify fun c => { c with rest := s }

/-- Skips white space between brackets. -/
def skipSpace : Counted Unit := modify fun c => { c with rest := skip (0 < c.depth) c.rest }

/-- Takes a sign and the white space in front of it, if the sign is there. -/
def eat (sign : Char) : Counted Bool := do
  let saved := (← get).rest
  skipSpace
  match dropPrefix? [sign] (← get).rest with
  | some rest =>
    moveTo rest
    return true
  | none =>
    moveTo saved
    return false

/-- Opens one more level if there is one. -/
def enter : Counted Bool := do
  let c ← get
  if c.nesting < maxNesting then
    set { c with nesting := c.nesting + 1 }
    return true
  else return false

/-- Closes a level. -/
def leave : Counted Unit := do
  let c ← get
  if c.nesting = 0 then throw .underflow
  set { c with nesting := c.nesting - 1 }

/-- Opens a bracket. -/
def openBracket : Counted Unit := modify fun c => { c with depth := c.depth + 1 }

/-- Closes a bracket. -/
def closeBracket : Counted Unit := do
  let c ← get
  if c.depth = 0 then throw .underflow
  set { c with depth := c.depth - 1 }

/-- Takes a sign that joins parts. -/
def separator (sign : Char) : Counted Bool := do
  if ← eat sign then
    skipSpace
    return true
  else return false

/-- Takes a `&` that joins types. -/
def ampersand : Counted Bool := do
  let saved := (← get).rest
  if ← separator '&' then
    let next? := (← get).rest.head?
    if next? = some '$' ∨ next? = some '.' then
      moveTo saved
      return false
    else return true
  else return false

/-- Reads further parts. Behind the last one the cursor goes back in front of the separator. -/
def more (separator : Counted Bool) (part : Counted (Option TypeExpr)) (c : Cursor) :
    Except Cursor.Fault (List TypeExpr × Cursor) :=
  match separator.run c with
  | .error f => .error f
  | .ok (false, c₁) => .ok ([], c₁)
  | .ok (true, c₁) =>
    match part.run c₁ with
    | .error f => .error f
    | .ok (none, c₂) => .ok ([], { c₂ with rest := c.rest })
    | .ok (some t, c₂) =>
      if c₂.rest.length < c.rest.length then
        (more separator part c₂).map fun (ts, c₃) => (t :: ts, c₃)
      else .error .endless
termination_by c.rest.length

/-- Reads one part or more. -/
def list (separator : Counted Bool) (part : Counted (Option TypeExpr)) :
    Counted (Option (List TypeExpr)) := do
  match ← part with
  | none => return none
  | some t =>
    let ts ← more separator part
    return some (t :: ts)

/-- Reads an atom and the `[]` behind it. -/
def row (atom : Counted (Option TypeExpr)) : Counted (Option TypeExpr) := do
  let start := (← get).rest
  match ← atom with
  | none => return none
  | some t =>
    let (n, rest) := readBrackets (← get).rest
    if n ≤ maxNesting then
      moveTo rest
      return some (arrays n t)
    else
      moveTo start
      return none

/-- Reads an intersection. -/
def intersection (atom : Counted (Option TypeExpr)) : Counted (Option TypeExpr) := do
  return (← list ampersand (row atom)).map (collapse .intersection)

/-- Reads a union. -/
def union (atom : Counted (Option TypeExpr)) : Counted (Option TypeExpr) := do
  return (← list (separator '|') (intersection atom)).map (collapse .union)

/-- Reads parameters up to the `>` behind them. -/
def paramsFrom (part : Counted (Option TypeExpr)) (c : Cursor) :
    Except Cursor.Fault (Option (List TypeExpr) × Cursor) :=
  match (skipSpace *> part).run c with
  | .error f => .error f
  | .ok (none, c₁) => .ok (none, c₁)
  | .ok (some t, c₁) =>
    match (eat ',').run c₁ with
    | .error f => .error f
    | .ok (true, c₂) =>
      if c₂.rest.length < c.rest.length then
        (paramsFrom part c₂).map fun (ts?, c₃) => (ts?.map (t :: ·), c₃)
      else .error .endless
    | .ok (false, c₂) =>
      ((eat '>').run c₂).map fun (closed, c₃) => (if closed then some [t] else none, c₃)
termination_by c.rest.length

/-- Reads parameters with the brackets around them. If they cannot be read, the cursor stays where
the reading stopped. -/
def params (atom : Counted (Option TypeExpr)) : Counted (Option (List TypeExpr)) := do
  if ← enter then
    moveTo (← get).rest.tail
    openBracket
    let ts? ← paramsFrom (union atom)
    closeBracket
    leave
    return ts?
  else return none

/-- Reads a type behind a `?`. -/
def nullable (atom : Counted (Option TypeExpr)) : Counted (Option TypeExpr) := do
  let start := (← get).rest
  if ← enter then
    moveTo start.tail
    let t? ← row atom
    leave
    match t? with
    | some t => return some (.nullable t)
    | none =>
      moveTo start
      return none
  else return none

/-- Reads a type between parentheses. -/
def group (atom : Counted (Option TypeExpr)) : Counted (Option TypeExpr) := do
  let start := (← get).rest
  if ← enter then
    moveTo start.tail
    openBracket
    skipSpace
    let t? ← union atom
    let closed ← if t?.isSome then eat ')' else pure false
    closeBracket
    leave
    if closed then return t?
    else
      moveTo start
      return none
  else return none

/-- Reads a name and the parameters behind it, which are left if they cannot be read. -/
def named (atom : Counted (Option TypeExpr)) : Counted (Option TypeExpr) := do
  match readName? (← get).rest with
  | none => return none
  | some (base, rest) =>
    moveTo rest
    if rest.head? = some '<' then
      match ← params atom with
      | some ts => return some (.generic base ts)
      | none =>
        moveTo rest
        return some (.name base)
    else return some (.name base)

/-- Reads an atom, with `inner` for the atoms that stand a level below. -/
def atomWith (inner : Counted (Option TypeExpr)) : Counted (Option TypeExpr) := do
  match (← get).rest.head? with
  | some '?' => nullable inner
  | some '(' => group inner
  | _ => named inner

/-- Reads an atom, with less than `fuel` levels below it. -/
def atom : (fuel : Nat) → Counted (Option TypeExpr)
  | 0 => throw .endless
  | fuel + 1 => atomWith (atom fuel)

/-- The type at the start of a text, and the number of bytes that it takes. -/
def read (s : Text) : Except Cursor.Fault (Option (TypeExpr × Nat)) := do
  let (t?, c) ← (union (atom (maxNesting + 1))).run ⟨s, 0, 0⟩
  return t?.map fun t => (t, byteSize s - byteSize c.rest)

/-! ### Signs and counts -/

section

variable {α β : Type}

lemma run_bind_of_eq {m : Counted α} {c c' : Cursor} {a : α} (h : m.run c = .ok (a, c'))
    (f : α → Counted β) : (m >>= f).run c = (f a).run c' := by
  rw [StateT.run_bind, h]
  rfl

@[simp] lemma run_get_bind (f : Cursor → Counted β) (c : Cursor) :
    (get >>= f).run c = (f c).run c := rfl

end

section

variable (s : Text) (d n : Nat)

lemma run_moveTo (c : Cursor) : (moveTo s).run c = .ok ((), { c with rest := s }) := rfl

lemma run_openBracket : openBracket.run ⟨s, d, n⟩ = .ok ((), ⟨s, d + 1, n⟩) := rfl

lemma run_closeBracket : closeBracket.run ⟨s, d + 1, n⟩ = .ok ((), ⟨s, d, n⟩) := rfl

lemma run_leave : leave.run ⟨s, d, n + 1⟩ = .ok ((), ⟨s, d, n⟩) := rfl

lemma run_enter_of_lt (h : n < maxNesting) :
    enter.run ⟨s, d, n⟩ = .ok (true, ⟨s, d, n + 1⟩) := by
  rw [enter, run_get_bind, if_pos h]
  rfl

lemma run_enter_of_not_lt (h : ¬ n < maxNesting) :
    enter.run ⟨s, d, n⟩ = .ok (false, ⟨s, d, n⟩) := by
  rw [enter, run_get_bind, if_neg h]
  rfl

end

/-- A reader of separators goes on behind what it takes, or goes back. -/
structure Takes (m : Counted Bool) (separator? : Bool → Text → Option Text) : Prop where
  shorter : ∀ {inside s rest}, separator? inside s = some rest → rest.length < s.length
  taken : ∀ {s rest d} n, separator? (0 < d) s = some rest →
    m.run ⟨s, d, n⟩ = .ok (true, ⟨rest, d, n⟩)
  left : ∀ {s d} n, separator? (0 < d) s = none → m.run ⟨s, d, n⟩ = .ok (false, ⟨s, d, n⟩)

lemma run_eat (sign : Char) (c : Cursor) : (eat sign).run c =
    (match readSign? (0 < c.depth) sign c.rest with
      | some rest => .ok (true, { c with rest })
      | none => .ok (false, c)) := by
  change (match readSign? (0 < c.depth) sign c.rest with
    | some rest => (moveTo rest *> pure true)
    | none => (moveTo c.rest *> pure false) : Counted Bool).run
      { c with rest := skip (0 < c.depth) c.rest } = _
  cases readSign? (0 < c.depth) sign c.rest <;> rfl

lemma takes_eat (sign : Char) : Takes (eat sign) (readSign? · sign) where
  shorter h := by
    obtain ⟨l, rfl, -⟩ := sound_readSign? h
    simp only [List.length_append, List.length_cons]
    omega
  taken n h := by simp only [run_eat, h]
  left n h := by simp only [run_eat, h]

lemma takes_separator (sign : Char) : Takes (separator sign) (readSeparator? · sign) where
  shorter h := by
    obtain ⟨p, rfl, l, r, rfl, -⟩ := sound_readSeparator? h
    simp only [List.length_append, List.length_cons]
    omega
  taken n h := by
    obtain ⟨r, hsign, rfl⟩ := Option.map_eq_some_iff.1 h
    rw [separator, run_bind_of_eq ((takes_eat sign).taken n hsign)]
    rfl
  left n h := by
    rw [separator, run_bind_of_eq ((takes_eat sign).left n (Option.map_eq_none_iff.1 h))]
    rfl

lemma readAmpersand?_eq {inside : Bool} {s rest : Text}
    (h : readSeparator? inside '&' s = some rest) : readAmpersand? inside s =
      if rest.head? = some '$' ∨ rest.head? = some '.' then none else some rest := by
  rw [readAmpersand?, h]
  split
  · next hrest => simp [Option.some.inj hrest]
  · next hrest => simp [Option.some.inj hrest]
  · next hdollar hdot =>
    have hnot : ¬ (rest.head? = some '$' ∨ rest.head? = some '.') := by
      rintro (hhead | hhead)
      · obtain ⟨r, rfl⟩ := List.head?_eq_some_iff.1 hhead
        exact hdollar r rfl
      · obtain ⟨r, rfl⟩ := List.head?_eq_some_iff.1 hhead
        exact hdot r rfl
    rw [if_neg hnot]

lemma run_ampersand {s rest : Text} {d : Nat} (n : Nat)
    (h : readSeparator? (0 < d) '&' s = some rest) : ampersand.run ⟨s, d, n⟩ =
      if rest.head? = some '$' ∨ rest.head? = some '.' then .ok (false, ⟨s, d, n⟩)
      else .ok (true, ⟨rest, d, n⟩) := by
  rw [ampersand, run_get_bind, run_bind_of_eq ((takes_separator '&').taken n h)]
  change (if rest.head? = some '$' ∨ rest.head? = some '.' then _ else _ : Counted Bool).run _ = _
  split_ifs <;> rfl

lemma takes_ampersand : Takes ampersand readAmpersand? where
  shorter h := by
    obtain ⟨p, rfl, ⟨l, r, rfl, -⟩, -⟩ := sound_readAmpersand? h
    simp only [List.length_append, List.length_cons]
    omega
  taken {s rest d} n h := by
    cases hsep : readSeparator? (0 < d) '&' s with
    | none => simp [readAmpersand?, hsep] at h
    | some r =>
      rw [readAmpersand?_eq hsep] at h
      rw [run_ampersand n hsep]
      split_ifs at h ⊢
      rw [Option.some.inj h]
  left {s d} n h := by
    cases hsep : readSeparator? (0 < d) '&' s with
    | none =>
      rw [ampersand, run_get_bind, run_bind_of_eq ((takes_separator '&').left n hsep)]
      rfl
    | some r =>
      rw [readAmpersand?_eq hsep] at h
      rw [run_ampersand n hsep]
      split_ifs at h ⊢
      rfl

/-! ### Parts -/

/-- A reader that counts reads what one without a cursor reads, where so many levels may still be
opened. The counts are then as they were, and the cursor is too if nothing was read. -/
structure Reads {α : Type} (levels : Nat) (m : Counted (Option α))
    (part? : Bool → Text → Option (α × Text)) : Prop where
  length_le : ∀ {inside s a rest}, part? inside s = some (a, rest) → rest.length ≤ s.length
  read : ∀ {s a rest d n}, n + levels = maxNesting → part? (0 < d) s = some (a, rest) →
    m.run ⟨s, d, n⟩ = .ok (some a, ⟨rest, d, n⟩)
  back : ∀ {s d n}, n + levels = maxNesting → part? (0 < d) s = none →
    m.run ⟨s, d, n⟩ = .ok (none, ⟨s, d, n⟩)

section

variable {levels : Nat} {sep : Counted Bool} {sep? : Bool → Text → Option Text}
  {part : Counted (Option TypeExpr)} {part? : Bool → Text → Option (TypeExpr × Text)}

lemma length_readMore_le (separator? : Text → Option Text)
    (part? : Text → Option (TypeExpr × Text)) (s : Text) :
    (readMore separator? part? s).2.length ≤ s.length := by
  induction s using readMore.induct separator? part? with
  | case1 s hnone => rw [readMore, hnone]
  | case2 s t rest hsome hlt ts rest' hmore ih =>
    rw [hmore] at ih
    rw [readMore, hsome]
    simp only [hlt, if_true, hmore]
    exact ih.trans hlt.le
  | case3 s t rest hsome hlt =>
    rw [readMore, hsome]
    simp only [hlt, if_false, le_refl]

lemma run_more (hsep : Takes sep sep?) (hpart : Reads levels part part?) {d n : Nat}
    (hn : n + levels = maxNesting) (s : Text) :
    more sep part ⟨s, d, n⟩ = .ok ((readMore (sep? (0 < d)) (part? (0 < d)) s).1,
      ⟨(readMore (sep? (0 < d)) (part? (0 < d)) s).2, d, n⟩) := by
  induction s using readMore.induct (sep? (0 < d)) (part? (0 < d)) with
  | case1 s hnone =>
    rw [readMore, hnone, more]
    cases hs : sep? (0 < d) s with
    | none => simp only [hsep.left n hs]
    | some r =>
      rw [hs] at hnone
      simp only [hsep.taken n hs, hpart.back hn hnone]
  | case2 s t rest hsome hlt ts rest' hmore ih =>
    obtain ⟨r, hs, hp⟩ := Option.bind_eq_some_iff.1 hsome
    rw [hmore] at ih
    rw [readMore, hsome, more]
    simp only [hsep.taken n hs, hpart.read hn hp, hlt, if_true, hmore, ih]
    rfl
  | case3 s t rest hsome hlt =>
    obtain ⟨r, hs, hp⟩ := Option.bind_eq_some_iff.1 hsome
    exact absurd ((hpart.length_le hp).trans_lt (hsep.shorter hs)) hlt

lemma reads_list (hsep : Takes sep sep?) (hpart : Reads levels part part?) :
    Reads levels (list sep part) fun inside => readList? (sep? inside) (part? inside) where
  length_le {inside s ts rest} h := by
    obtain ⟨⟨t, r⟩, hfirst, hmore⟩ := Option.bind_eq_some_iff.1 h
    obtain ⟨-, rfl⟩ := Prod.mk.inj (Option.some.inj hmore)
    exact (length_readMore_le _ _ r).trans (hpart.length_le hfirst)
  read {s ts rest d n} hn h := by
    obtain ⟨⟨t, r⟩, hfirst, hmore⟩ := Option.bind_eq_some_iff.1 h
    obtain ⟨rfl, rfl⟩ := Prod.mk.inj (Option.some.inj hmore)
    rw [list, run_bind_of_eq (hpart.read hn hfirst)]
    exact run_bind_of_eq (run_more hsep hpart hn r) _
  back {s d n} hn h := by
    have hfirst : part? (0 < d) s = none := by
      cases hfirst : part? (0 < d) s with
      | none => rfl
      | some p => simp [readList?, hfirst] at h
    rw [list, run_bind_of_eq (hpart.back hn hfirst)]
    rfl

/-- What is read may be given another form. -/
lemma Reads.map {α β : Type} {m : Counted (Option α)} {part? : Bool → Text → Option (α × Text)}
    (h : Reads levels m part?) (f : α → β) : Reads levels (do return (← m).map f)
      fun inside s => (part? inside s).map fun (a, rest) => (f a, rest) where
  length_le hread := by
    obtain ⟨⟨a, r⟩, hpart, heq⟩ := Option.map_eq_some_iff.1 hread
    obtain ⟨-, rfl⟩ := Prod.mk.inj heq
    exact h.length_le hpart
  read hn hread := by
    obtain ⟨⟨a, r⟩, hpart, heq⟩ := Option.map_eq_some_iff.1 hread
    obtain ⟨rfl, rfl⟩ := Prod.mk.inj heq
    rw [run_bind_of_eq (h.read hn hpart)]
    rfl
  back hn hback := by
    rw [run_bind_of_eq (h.back hn (Option.map_eq_none_iff.1 hback))]
    rfl

end

section

variable {levels : Nat} {atom : Counted (Option TypeExpr)}
  {atom? : Bool → Text → Option (TypeExpr × Text)}

lemma reads_row (hatom : Reads levels atom atom?) :
    Reads levels (row atom) fun inside => readRow? (atom? inside) where
  length_le {inside s t rest} h := by
    obtain ⟨⟨u, r⟩, hread, hrow⟩ := Option.bind_eq_some_iff.1 h
    dsimp only at hrow
    split_ifs at hrow
    obtain ⟨-, rfl⟩ := Prod.mk.inj (Option.some.inj hrow)
    have hlength := congrArg List.length (sound_readBrackets r)
    rw [List.length_append] at hlength
    exact (Nat.le_of_add_left_le hlength.ge).trans (hatom.length_le hread)
  read {s t rest d n} hn h := by
    obtain ⟨⟨u, r⟩, hread, hrow⟩ := Option.bind_eq_some_iff.1 h
    dsimp only at hrow
    split_ifs at hrow with hle
    obtain ⟨rfl, rfl⟩ := Prod.mk.inj (Option.some.inj hrow)
    rw [row, run_get_bind, run_bind_of_eq (hatom.read hn hread)]
    dsimp only
    rw [run_get_bind]
    dsimp only
    rw [if_pos hle]
    rfl
  back {s d n} hn h := by
    cases hread : atom? (0 < d) s with
    | none =>
      rw [row, run_get_bind, run_bind_of_eq (hatom.back hn hread)]
      rfl
    | some p =>
      obtain ⟨u, r⟩ := p
      have hlt : ¬ (readBrackets r).1 ≤ maxNesting := by
        simpa [readRow?, hread] using h
      rw [row, run_get_bind, run_bind_of_eq (hatom.read hn hread)]
      dsimp only
      rw [run_get_bind]
      dsimp only
      rw [if_neg hlt]
      rfl

lemma reads_intersection (hatom : Reads levels atom atom?) :
    Reads levels (intersection atom) fun inside => readIntersection? inside (atom? inside) :=
  (reads_list takes_ampersand (reads_row hatom)).map _

lemma reads_union (hatom : Reads levels atom atom?) :
    Reads levels (union atom) fun inside => readUnion? inside (atom? inside) :=
  (reads_list (takes_separator '|') (reads_intersection hatom)).map _

end

/-! ### Parameters -/

section

variable {levels : Nat} {atom : Counted (Option TypeExpr)}
  {atom? : Bool → Text → Option (TypeExpr × Text)} {s r r' : Text} {t : TypeExpr}

lemma readParams?_eq {a? : Text → Option (TypeExpr × Text)}
    (hunion : readUnion? true a? (trimStart s) = some (t, r)) : readParams? a? s =
      (readSign? true '>' (readMore (readSeparator? true ',') (readUnion? true a?) r).2).map
        fun rest => (t :: (readMore (readSeparator? true ',') (readUnion? true a?) r).1, rest) := by
  simp only [readParams?, readList?, hunion, Option.bind_eq_bind, Option.bind_some, Option.pure_def]
  cases readSign? true '>' (readMore (readSeparator? true ',') (readUnion? true a?) r).2 <;> rfl

lemma readParams?_eq_none {a? : Text → Option (TypeExpr × Text)}
    (hunion : readUnion? true a? (trimStart s) = none) : readParams? a? s = none := by
  simp [readParams?, readList?, hunion]

/-- Where a `,` stands there is no `>`. -/
lemma readSign?_eq_none {inside : Bool} (h : readSign? inside ',' s = some r) :
    readSign? inside '>' s = none := by
  rw [readSign?] at h ⊢
  cases hs : skip inside s with
  | nil => rfl
  | cons c cs =>
    rw [hs, dropPrefix?] at h
    split_ifs at h with hc
    rw [← hc]
    rfl

/-- Behind a `,` the other parameters are read like all of them. -/
lemma readParams?_of_comma (hatom : Reads levels atom atom?)
    (hunion : readUnion? true (atom? true) (trimStart s) = some (t, r))
    (hcomma : readSign? true ',' r = some r') : readParams? (atom? true) s =
      (readParams? (atom? true) r').map fun (ts, rest) => (t :: ts, rest) := by
  have hsep : readSeparator? true ',' r = some (trimStart r') := by
    rw [readSeparator?, hcomma]
    rfl
  rw [readParams?_eq hunion, readMore]
  cases hnext : readUnion? true (atom? true) (trimStart r') with
  | none =>
    simp only [hsep, Option.bind_some, hnext, readSign?_eq_none hcomma, readParams?_eq_none hnext,
      Option.map_none]
  | some p =>
    obtain ⟨t', r''⟩ := p
    have hlt : r''.length < r.length :=
      ((reads_union hatom).length_le hnext).trans_lt ((takes_separator ',').shorter hsep)
    simp only [hsep, Option.bind_some, hnext, hlt, if_true, readParams?_eq hnext]
    cases readSign? true '>' _ <;> rfl

/-- Without one, the parameters end. -/
lemma readParams?_of_not_comma {a? : Text → Option (TypeExpr × Text)}
    (hunion : readUnion? true a? (trimStart s) = some (t, r))
    (hcomma : readSign? true ',' r = none) :
    readParams? a? s = (readSign? true '>' r).map fun rest => ([t], rest) := by
  have hsep : readSeparator? true ',' r = none := by
    rw [readSeparator?, hcomma]
    rfl
  rw [readParams?_eq hunion, readMore]
  simp only [hsep, Option.bind_none]

/-- Between brackets the parameters are read with the counts kept. -/
lemma run_paramsFrom (hatom : Reads levels atom atom?) {d n : Nat} (hd : 0 < d)
    (hn : n + levels = maxNesting) (s : Text) :
    (∀ ts rest, readParams? (atom? true) s = some (ts, rest) →
      paramsFrom (union atom) ⟨s, d, n⟩ = .ok (some ts, ⟨rest, d, n⟩)) ∧
    (readParams? (atom? true) s = none →
      ∃ rest, paramsFrom (union atom) ⟨s, d, n⟩ = .ok (none, ⟨rest, d, n⟩)) := by
  induction hlength : s.length using Nat.strong_induction_on generalizing s with
  | _ l ih =>
    subst hlength
    have hinside : decide (0 < d) = true := decide_eq_true hd
    have hskip : (skipSpace *> union atom).run ⟨s, d, n⟩ =
        (union atom).run ⟨trimStart s, d, n⟩ := by
      rw [show trimStart s = skip (decide (0 < d)) s by rw [hinside]; rfl]
      rfl
    rw [paramsFrom, hskip]
    cases hunion : readUnion? true (atom? true) (trimStart s) with
    | none =>
      rw [readParams?_eq_none hunion, (reads_union hatom).back hn (by rw [hinside]; exact hunion)]
      exact ⟨by simp, fun _ => ⟨_, rfl⟩⟩
    | some p =>
      obtain ⟨t, r⟩ := p
      rw [(reads_union hatom).read hn (by rw [hinside]; exact hunion)]
      dsimp only
      cases hcomma : readSign? true ',' r with
      | some r' =>
        have hlt : r'.length < s.length :=
          calc r'.length < r.length := (takes_eat ',').shorter hcomma
            _ ≤ (trimStart s).length := (reads_union hatom).length_le hunion
            _ ≤ s.length := (trimStart_suffix s).length_le
        obtain ⟨hread, hback⟩ := ih r'.length hlt r' rfl
        rw [readParams?_of_comma hatom hunion hcomma,
          (takes_eat ',').taken n (by rw [hinside]; exact hcomma)]
        simp only [hlt, if_true]
        constructor
        · intro ts rest h
          obtain ⟨⟨ts', rest'⟩, hts, heq⟩ := Option.map_eq_some_iff.1 h
          obtain ⟨rfl, rfl⟩ := Prod.mk.inj heq
          rw [hread ts' rest' hts]
          rfl
        · intro h
          obtain ⟨rest, hrest⟩ := hback (Option.map_eq_none_iff.1 h)
          exact ⟨rest, by rw [hrest]; rfl⟩
      | none =>
        rw [readParams?_of_not_comma hunion hcomma,
          (takes_eat ',').left n (by rw [hinside]; exact hcomma)]
        dsimp only
        cases hclose : readSign? true '>' r with
        | none =>
          rw [(takes_eat '>').left n (by rw [hinside]; exact hclose)]
          exact ⟨by simp, fun _ => ⟨r, rfl⟩⟩
        | some rest =>
          rw [(takes_eat '>').taken n (by rw [hinside]; exact hclose)]
          refine ⟨fun ts rest' h => ?_, by simp⟩
          obtain ⟨rfl, rfl⟩ := Prod.mk.inj (Option.some.inj h)
          rfl

lemma run_params (hatom : Reads levels atom atom?) {n : Nat} (hn : n + (levels + 1) = maxNesting)
    (s : Text) (d : Nat) :
    (∀ ts rest, readParams? (atom? true) s.tail = some (ts, rest) →
      (params atom).run ⟨s, d, n⟩ = .ok (some ts, ⟨rest, d, n⟩)) ∧
    (readParams? (atom? true) s.tail = none →
      ∃ rest, (params atom).run ⟨s, d, n⟩ = .ok (none, ⟨rest, d, n⟩)) := by
  obtain ⟨hread, hback⟩ := run_paramsFrom hatom d.succ_pos (n := n + 1) (by omega) s.tail
  have hrun {ts? : Option (List TypeExpr)} {rest : Text}
      (h : paramsFrom (union atom) ⟨s.tail, d + 1, n + 1⟩ = .ok (ts?, ⟨rest, d + 1, n + 1⟩)) :
      (params atom).run ⟨s, d, n⟩ = .ok (ts?, ⟨rest, d, n⟩) := by
    rw [params, run_bind_of_eq (run_enter_of_lt s d n (by omega)), if_pos rfl, run_get_bind,
      run_bind_of_eq (run_moveTo _ _), run_bind_of_eq (run_openBracket _ _ _), run_bind_of_eq h,
      run_bind_of_eq (run_closeBracket _ _ _), run_bind_of_eq (run_leave _ _ _)]
    rfl
  refine ⟨fun ts rest h => hrun (hread ts rest h), fun h => ?_⟩
  obtain ⟨rest, hrest⟩ := hback h
  exact ⟨rest, hrun hrest⟩

lemma run_params_of_not_lt (atom : Counted (Option TypeExpr)) {n : Nat} (hn : ¬ n < maxNesting)
    (s : Text) (d : Nat) : (params atom).run ⟨s, d, n⟩ = .ok (none, ⟨s, d, n⟩) := by
  rw [params, run_bind_of_eq (run_enter_of_not_lt s d n hn)]
  rfl

end

/-! ### Atoms -/

/-- Where a reader of types stops: behind what was read, or where it began. -/
def stop (s : Text) (d n : Nat) : Option (TypeExpr × Text) → Option TypeExpr × Cursor
  | some (t, rest) => (some t, ⟨rest, d, n⟩)
  | none => (none, ⟨s, d, n⟩)

section

variable {levels : Nat} {inner : Counted (Option TypeExpr)}
  {atom? : Bool → Text → Option (TypeExpr × Text)} {n : Nat} (s r : Text) (d : Nat)

section

variable (hinner : Reads levels inner atom?) (hn : n + (levels + 1) = maxNesting)

include hinner hn

lemma run_nullable : (nullable inner).run ⟨'?' :: r, d, n⟩ = .ok (stop ('?' :: r) d n
    ((readRow? (atom? (0 < d)) r).map fun (t, rest) => (.nullable t, rest))) := by
  rw [nullable, run_get_bind, run_bind_of_eq (run_enter_of_lt _ d n (by omega)), if_pos rfl,
    run_bind_of_eq (run_moveTo _ _)]
  dsimp only [List.tail_cons]
  have hn' : n + 1 + levels = maxNesting := by omega
  cases hrow : readRow? (atom? (0 < d)) r with
  | none =>
    rw [run_bind_of_eq ((reads_row hinner).back hn' hrow), run_bind_of_eq (run_leave _ _ _)]
    rfl
  | some p =>
    rw [run_bind_of_eq ((reads_row hinner).read hn' hrow), run_bind_of_eq (run_leave _ _ _)]
    rfl

lemma run_group : (group inner).run ⟨'(' :: r, d, n⟩ = .ok (stop ('(' :: r) d n (do
    let (t, rest) ← readUnion? true (atom? true) (trimStart r)
    let rest ← readSign? true ')' rest
    return (t, rest))) := by
  have hn' : n + 1 + levels = maxNesting := by omega
  have hspace : skipSpace.run ⟨r, d + 1, n + 1⟩ = .ok ((), ⟨trimStart r, d + 1, n + 1⟩) := rfl
  rw [group, run_get_bind, run_bind_of_eq (run_enter_of_lt _ d n (by omega)), if_pos rfl,
    run_bind_of_eq (run_moveTo _ _)]
  dsimp only [List.tail_cons]
  rw [run_bind_of_eq (run_openBracket _ _ _), run_bind_of_eq hspace]
  cases hunion : readUnion? true (atom? true) (trimStart r) with
  | none =>
    rw [run_bind_of_eq ((reads_union hinner).back hn' (d := d + 1) hunion)]
    rfl
  | some p =>
    obtain ⟨t, r'⟩ := p
    rw [run_bind_of_eq ((reads_union hinner).read hn' (d := d + 1) hunion)]
    dsimp only [Option.isSome_some]
    rw [if_pos rfl]
    cases hclose : readSign? true ')' r' with
    | none =>
      rw [run_bind_of_eq ((takes_eat ')').left (n + 1) (d := d + 1) hclose)]
      simp only [Option.bind_eq_bind, Option.bind_some, hclose]
      rfl
    | some rest =>
      rw [run_bind_of_eq ((takes_eat ')').taken (n + 1) (d := d + 1) hclose)]
      simp only [Option.bind_eq_bind, Option.bind_some, hclose]
      rfl

lemma run_named : (named inner).run ⟨s, d, n⟩ = .ok (stop s d n (do
    let (base, rest) ← readName? s
    match (dropPrefix? ['<'] rest).bind (readParams? (atom? true)) with
    | some (params, rest) => return (.generic base params, rest)
    | none => return (.name base, rest))) := by
  rw [named, run_get_bind]
  cases hname : readName? s with
  | none => rfl
  | some p =>
    obtain ⟨base, rest⟩ := p
    simp only [Option.bind_eq_bind, Option.bind_some]
    rw [run_bind_of_eq (run_moveTo _ _)]
    dsimp only
    by_cases hopen : rest.head? = some '<'
    · obtain ⟨r, rfl⟩ := List.head?_eq_some_iff.1 hopen
      obtain ⟨hread, hback⟩ := run_params hinner hn ('<' :: r) d
      have hdrop : dropPrefix? ['<'] ('<' :: r) = some r := rfl
      rw [if_pos hopen, hdrop, Option.bind_some]
      cases hparams : readParams? (atom? true) r with
      | none =>
        obtain ⟨rest, hrest⟩ := hback hparams
        rw [run_bind_of_eq hrest]
        rfl
      | some p =>
        rw [run_bind_of_eq (hread p.1 p.2 hparams)]
        rfl
    · have hdrop : dropPrefix? ['<'] rest = none := by
        cases rest with
        | nil => rfl
        | cons c rest =>
          have hc : '<' ≠ c := fun h => hopen (by rw [h]; rfl)
          rw [dropPrefix?, if_neg hc]
      rw [if_neg hopen, hdrop, Option.bind_none]
      rfl

end

section

variable (hn : ¬ n < maxNesting)

include hn

lemma run_nullable_of_not_lt :
    (nullable inner).run ⟨'?' :: r, d, n⟩ = .ok (none, ⟨'?' :: r, d, n⟩) := by
  rw [nullable, run_get_bind, run_bind_of_eq (run_enter_of_not_lt _ d n hn)]
  rfl

lemma run_group_of_not_lt :
    (group inner).run ⟨'(' :: r, d, n⟩ = .ok (none, ⟨'(' :: r, d, n⟩) := by
  rw [group, run_get_bind, run_bind_of_eq (run_enter_of_not_lt _ d n hn)]
  rfl

lemma run_named_of_not_lt : (named inner).run ⟨s, d, n⟩ =
    .ok (stop s d n ((readName? s).map fun (base, rest) => (.name base, rest))) := by
  rw [named, run_get_bind]
  cases hname : readName? s with
  | none => rfl
  | some p =>
    obtain ⟨base, rest⟩ := p
    dsimp only
    rw [run_bind_of_eq (run_moveTo _ _)]
    dsimp only
    split_ifs
    · rw [run_bind_of_eq (run_params_of_not_lt inner hn rest d)]
      rfl
    · rfl

end

lemma run_atomWith_zero (hn : ¬ n < maxNesting) :
    (atomWith inner).run ⟨s, d, n⟩ = .ok (stop s d n (readAtom? 0 (0 < d) s)) := by
  rw [atomWith, run_get_bind]
  dsimp only
  split
  · next h =>
    obtain ⟨r, rfl⟩ := List.head?_eq_some_iff.1 h
    rw [run_nullable_of_not_lt r d hn]
    simp [readAtom?, readName?, isNameStart, stop]
  · next h =>
    obtain ⟨r, rfl⟩ := List.head?_eq_some_iff.1 h
    rw [run_group_of_not_lt r d hn]
    simp [readAtom?, readName?, isNameStart, stop]
  · rw [run_named_of_not_lt s d hn, readAtom?]

lemma run_atomWith_succ (hinner : Reads levels inner (readAtom? levels))
    (hn : n + (levels + 1) = maxNesting) :
    (atomWith inner).run ⟨s, d, n⟩ = .ok (stop s d n (readAtom? (levels + 1) (0 < d) s)) := by
  rw [atomWith, run_get_bind]
  dsimp only
  split
  · next h =>
    obtain ⟨r, rfl⟩ := List.head?_eq_some_iff.1 h
    rw [run_nullable r d hinner hn, readAtom?]
  · next h =>
    obtain ⟨r, rfl⟩ := List.head?_eq_some_iff.1 h
    rw [run_group r d hinner hn, readAtom?]
  · next hnullable hgroup =>
    rw [readAtom?.eq_3 _ _ _ (fun r hr => hnullable (by rw [hr]; rfl))
      fun r hr => hgroup (by rw [hr]; rfl)]
    exact run_named s d hinner hn

end

/-- A reader that stops where one without a cursor does. -/
lemma Reads.of_run {levels : Nat} {m : Counted (Option TypeExpr)}
    {atom? : Bool → Text → Option (TypeExpr × Text)}
    (hlength : ∀ {inside s t rest}, atom? inside s = some (t, rest) → rest.length ≤ s.length)
    (hrun : ∀ s d n, n + levels = maxNesting →
      m.run ⟨s, d, n⟩ = .ok (stop s d n (atom? (0 < d) s))) : Reads levels m atom? where
  length_le := hlength
  read hn h := by rw [hrun _ _ _ hn, h, stop]
  back hn h := by rw [hrun _ _ _ hn, h, stop]

/-- With as much fuel as there are levels to open, atoms are read as without a cursor. -/
lemma reads_atom (levels : Nat) : Reads levels (atom (levels + 1)) (readAtom? levels) := by
  have hlength {levels inside s t rest} (h : readAtom? levels inside s = some (t, rest)) :
      rest.length ≤ s.length := by
    obtain ⟨w, rfl, -⟩ := sound_readAtom? levels inside h
    simp
  induction levels with
  | zero => exact .of_run hlength fun s d n hn => run_atomWith_zero s d (by omega)
  | succ levels ih => exact .of_run hlength fun s d n hn => run_atomWith_succ s d ih hn

/-! ### Types -/

/-- Reading with a cursor, from nothing open, never fails and finds the same type. -/
lemma read_eq (s : Text) : read s = .ok (read? s) := by
  have hreads := reads_union (reads_atom maxNesting)
  rw [read, read?]
  cases h : readUnion? false (readAtom? maxNesting false) s with
  | none =>
    rw [hreads.back (d := 0) (Nat.zero_add _) h]
    rfl
  | some p =>
    rw [hreads.read (d := 0) (Nat.zero_add _) h]
    rfl

/-- A reader that ends with the counts as they were. -/
def Keeps {α : Type} (m : Counted α) (c : Cursor) : Prop :=
  ∃ a rest, m.run c = .ok (a, { c with rest })

lemma Reads.keeps {α : Type} {levels : Nat} {m : Counted (Option α)}
    {part? : Bool → Text → Option (α × Text)} (h : Reads levels m part?) {c : Cursor}
    (hc : c.nesting + levels = maxNesting) : Keeps m c := by
  cases hpart : part? (0 < c.depth) c.rest with
  | none => exact ⟨none, c.rest, h.back hc hpart⟩
  | some p => exact ⟨some p.1, p.2, h.read hc hpart⟩

lemma keeps_params {levels : Nat} {c : Cursor} (hc : c.nesting + levels = maxNesting) :
    Keeps (params (atom levels)) c := by
  cases levels with
  | zero => exact ⟨none, c.rest, run_params_of_not_lt _ (by omega) _ _⟩
  | succ levels =>
    obtain ⟨hread, hback⟩ := run_params (reads_atom levels) hc c.rest c.depth
    cases hparams : readParams? (readAtom? levels true) c.rest.tail with
    | none =>
      obtain ⟨rest, hrest⟩ := hback hparams
      exact ⟨none, rest, hrest⟩
    | some p => exact ⟨some p.1, p.2, hread p.1 p.2 hparams⟩

end Counted

/-- A type that is read refers to the runs of name characters in the text that it takes, which is
not empty and ends at a character. Counting what is open, it is read without an underflow, and
whichever reader is called, where some of the levels are open already, ends with the counts as they
were. -/
theorem names_eq_nameRuns_of_read? (raw : Text) :
    (∀ t n, read? raw = some (t, n) → t.names = nameRuns (takeBytes n raw) ∧ 1 ≤ n ∧
      n ≤ byteSize raw ∧ isBoundary n raw) ∧
    Counted.read raw = .ok (read? raw) ∧
    ∀ (levels : Nat) (c : Cursor), c.nesting + levels = maxNesting →
      let atom := Counted.atom (levels + 1)
      Counted.Keeps (Counted.union atom) c ∧ Counted.Keeps (Counted.intersection atom) c ∧
        Counted.Keeps (Counted.row atom) c ∧ Counted.Keeps atom c ∧
        Counted.Keeps (Counted.params (Counted.atom levels)) c := by
  refine ⟨fun t n h => ?_, Counted.read_eq raw, fun levels c hc => ?_⟩
  · obtain ⟨w, rest, rfl, rfl, hw, -⟩ := sound_read? h
    obtain ⟨c, hc, hstart⟩ := IsUnion.starts (fun h => h.starts IsAtom.starts) hw
    obtain ⟨cs, rfl⟩ := List.head?_eq_some_iff.1 hc
    have hpos := c.utf8Size_pos
    refine ⟨?_, ?_, ?_, isBoundary_byteSize_append _ _⟩
    · rw [takeBytes_byteSize_append, names_of_derives hw]
    · rw [byteSize_cons]
      omega
    · rw [byteSize_append]
      exact Nat.le_add_right _ _
  · have hatom := Counted.reads_atom levels
    exact ⟨(Counted.reads_union hatom).keeps hc, (Counted.reads_intersection hatom).keeps hc,
      (Counted.reads_row hatom).keeps hc, hatom.keeps hc, Counted.keeps_params hc⟩

/-- Parameters that cannot be read leave the name in front of them, and no name of their own. -/
theorem names_eq_nameRuns_of_read?_unread_params :
    let raw := "(A | \\b:c[])|Foo<A, B C>".toList
    let t : TypeExpr := .union [.union [.name ['A'], .array (.name "\\b:c".toList)],
      .name "Foo".toList]
    let c : Cursor := ⟨"<A>".toList, 1, 64⟩
    (read? raw = some (t, 16) ∧ c.nesting + 0 = maxNesting) ∧
      t.names = [['A'], "\\b:c".toList, "Foo".toList] ∧ t.names = nameRuns (takeBytes 16 raw) ∧
      Counted.read raw = .ok (some (t, 16)) ∧
        Counted.Keeps (Counted.params (Counted.atom 0)) c := by
  intro raw t c
  have hread : read? raw = some (t, 16) := by decide +kernel
  obtain ⟨hnames, hcounted, hkeeps⟩ := names_eq_nameRuns_of_read? raw
  exact ⟨⟨hread, rfl⟩, by decide, (hnames t 16 hread).1, hcounted.trans (by rw [hread]),
    (hkeeps 0 c rfl).2.2.2.2⟩

end DocComment.TypeExpr
