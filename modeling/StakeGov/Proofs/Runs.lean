import StakeGov.Engine.Run

/-!
# Laws of steps

What a step makes of a run is `exec`. Every way to put steps together has an
equation for it (`exec_bind` and its neighbours), and a sequence that ends well
has parts that end well (`exec_bind_ok`).
-/

namespace StakeGov

def Run.record (r : Run) (e : Event) : Run :=
  { r with events := r.events ++ [e] }

@[simp] theorem Run.record_ledger (r : Run) (e : Event) : (r.record e).ledger = r.ledger := rfl
@[simp] theorem Run.record_body (r : Run) (e : Event) : (r.record e).body = r.body := rfl
@[simp] theorem Run.record_policies (r : Run) (e : Event) :
    (r.record e).policies = r.policies := rfl

namespace Step

variable {ε ε' α β : Type}

def exec (s : Step ε α) (r : Run) : Except ε α × Run :=
  (ExceptT.run s).run r

@[simp] theorem exec_pure (a : α) (r : Run) : exec (pure a : Step ε α) r = (.ok a, r) := rfl

@[simp] theorem exec_throw (e : ε) (r : Run) : exec (throw e : Step ε α) r = (.error e, r) := rfl

theorem exec_bind (x : Step ε α) (f : α → Step ε β) (r : Run) :
    exec (x >>= f) r =
      match exec x r with
      | (.ok a, r') => exec (f a) r'
      | (.error e, r') => (.error e, r') := by
  simp only [exec, ExceptT.run_bind, StateT.run_bind]
  generalize (ExceptT.run x).run r = result
  rcases result with ⟨_ | a, r'⟩ <;> rfl

@[simp] theorem exec_get (r : Run) : exec (get : Step ε Run) r = (.ok r, r) := rfl

@[simp] theorem exec_modify (f : Run → Run) (r : Run) :
    exec (modify f : Step ε PUnit) r = (.ok ⟨⟩, f r) := rfl

@[simp] theorem exec_ledger (r : Run) : exec (ledger : Step ε Ledger) r = (.ok r.ledger, r) := rfl

@[simp] theorem exec_modifyLedger (f : Ledger → Ledger) (r : Run) :
    exec (modifyLedger f : Step ε Unit) r = (.ok (), { r with ledger := f r.ledger }) := rfl

@[simp] theorem exec_emit (e : Event) (r : Run) :
    exec (emit e : Step ε Unit) r = (.ok (), r.record e) := rfl

@[simp] theorem exec_count (m : Metric) (r : Run) :
    exec (count m : Step ε Unit) r = (.ok (), r.record (.metric m)) := rfl

@[simp] theorem exec_append (tx : Transaction) (receipt : Receipt) (r : Run) :
    exec (append tx receipt : Step ε Unit) r =
      (.ok (), { r with body := r.body.add tx receipt }) := rfl

@[simp] theorem exec_ofExcept (x : Except ε α) (r : Run) : exec (ofExcept x) r = (x, r) := rfl

@[simp] theorem ofExcept_ok (a : α) : (ofExcept (.ok a) : Step ε α) = pure a := rfl

@[simp] theorem ofExcept_error (e : ε) : (ofExcept (.error e) : Step ε α) = throw e := rfl

theorem exec_outcome (s : Step ε α) (r : Run) :
    exec (outcome s : Step ε' (Except ε α)) r = (.ok (exec s r).1, (exec s r).2) := rfl

theorem exec_mapError (f : ε → ε') (s : Step ε α) (r : Run) :
    exec (mapError f s) r = ((exec s r).1.mapError f, (exec s r).2) := by
  change (Except.mapError f <$> ExceptT.run s).run r = _
  rw [StateT.run_map]
  rfl

theorem exec_on (l : Ledger) (s : Step ε α) (r : Run) :
    exec (on l s) r =
      ((exec s { r with ledger := l }).1,
        { (exec s { r with ledger := l }).2 with ledger := r.ledger }) := rfl

-- ---------------------------------------------------------------------------
-- Ending well and ending badly
-- ---------------------------------------------------------------------------

theorem exec_bind_ok {x : Step ε α} {f : α → Step ε β} {r r'' : Run} {b : β} :
    exec (x >>= f) r = (.ok b, r'') ↔
      ∃ a r', exec x r = (.ok a, r') ∧ exec (f a) r' = (.ok b, r'') := by
  rw [exec_bind]
  rcases exec x r with ⟨_ | a, r'⟩
  · simp
  · constructor
    · exact fun h => ⟨a, r', rfl, h⟩
    · rintro ⟨_, _, ⟨⟩, h⟩
      exact h

theorem exec_bind_of_ok {x : Step ε α} {f : α → Step ε β} {r r' : Run} {a : α}
    (h : exec x r = (.ok a, r')) : exec (x >>= f) r = exec (f a) r' := by
  rw [exec_bind, h]

theorem exec_drop_run (x : Step ε α) (r : Run) :
    (exec (x >>= fun _ => (pure () : Step ε Unit)) r).2 = (exec x r).2 := by
  rw [exec_bind]
  rcases exec x r with ⟨_ | a, r'⟩ <;> rfl

theorem exec_bind_of_error {x : Step ε α} {f : α → Step ε β} {r r' : Run} {e : ε}
    (h : exec x r = (.error e, r')) : exec (x >>= f) r = (.error e, r') := by
  rw [exec_bind, h]

theorem exec_mapError_ok {f : ε → ε'} {s : Step ε α} {r r' : Run} {a : α} :
    exec (mapError f s) r = (.ok a, r') ↔ exec s r = (.ok a, r') := by
  rw [exec_mapError]
  rcases exec s r with ⟨cause | a, q⟩
  · constructor <;> rintro ⟨⟩
  · constructor <;>
    · rintro ⟨⟩
      rfl

theorem exec_bind_error {x : Step ε α} {f : α → Step ε β} {r r'' : Run} {e : ε} :
    exec (x >>= f) r = (.error e, r'') ↔
      exec x r = (.error e, r'') ∨
        ∃ a r', exec x r = (.ok a, r') ∧ exec (f a) r' = (.error e, r'') := by
  rw [exec_bind]
  rcases exec x r with ⟨_ | a, r'⟩
  · simp
  · constructor
    · exact fun h => .inr ⟨a, r', rfl, h⟩
    · rintro (⟨⟨⟩⟩ | ⟨_, _, ⟨⟩, h⟩)
      exact h

theorem exec_mapError_error {f : ε → ε'} {s : Step ε α} {r r' : Run} {e' : ε'} :
    exec (mapError f s) r = (.error e', r') ↔ ∃ e, exec s r = (.error e, r') ∧ f e = e' := by
  rw [exec_mapError]
  rcases exec s r with ⟨cause | a, q⟩
  · constructor
    · rintro ⟨⟩
      exact ⟨cause, rfl, rfl⟩
    · rintro ⟨_, ⟨⟩, rfl⟩
      rfl
  · constructor
    · rintro ⟨⟩
    · rintro ⟨_, ⟨⟩, -⟩

theorem toOption_eq_some {x : Except ε α} {a : α} : x.toOption = some a ↔ x = .ok a := by
  cases x <;> simp [Except.toOption]

theorem exec_of_toOption {s : Step ε α} {r : Run} {a : α} (h : (exec s r).1.toOption = some a) :
    exec s r = (.ok a, (exec s r).2) :=
  Prod.ext (toOption_eq_some.mp h) rfl

-- ---------------------------------------------------------------------------
-- A step for every entry of a list
-- ---------------------------------------------------------------------------

section
variable {f : α → Step ε PUnit} {r r' : Run}

@[simp] theorem exec_forM_nil : exec (([] : List α).forM f) r = (.ok ⟨⟩, r) := rfl

theorem exec_forM_cons_ok {a : α} {l : List α} {r'' : Run} :
    exec ((a :: l).forM f) r = (.ok ⟨⟩, r'') ↔
      ∃ r', exec (f a) r = (.ok ⟨⟩, r') ∧ exec (l.forM f) r' = (.ok ⟨⟩, r'') := by
  change exec (f a >>= fun _ => l.forM f) r = _ ↔ _
  rw [exec_bind_ok]
  constructor
  · rintro ⟨_, r', h⟩
    exact ⟨r', h⟩
  · rintro ⟨r', h⟩
    exact ⟨⟨⟩, r', h⟩

theorem exec_forM_append {first rest : List α} (h : exec (first.forM f) r = (.ok ⟨⟩, r')) :
    exec ((first ++ rest).forM f) r = exec (rest.forM f) r' := by
  induction first generalizing r with
  | nil =>
    cases h
    rfl
  | cons a first ih =>
    obtain ⟨q, hhead, htail⟩ := exec_forM_cons_ok.mp h
    rw [← ih htail]
    exact exec_bind_of_ok hhead

theorem exec_forM_append_ok {first rest : List α} {r'' : Run} :
    exec ((first ++ rest).forM f) r = (.ok ⟨⟩, r'') ↔
      ∃ r', exec (first.forM f) r = (.ok ⟨⟩, r') ∧ exec (rest.forM f) r' = (.ok ⟨⟩, r'') := by
  induction first generalizing r with
  | nil => simp
  | cons a first ih =>
    rw [List.cons_append, exec_forM_cons_ok]
    simp only [ih, exec_forM_cons_ok]
    constructor
    · rintro ⟨q, hhead, r', hfirst, hrest⟩
      exact ⟨r', ⟨q, hhead, hfirst⟩, hrest⟩
    · rintro ⟨r', ⟨q, hhead, hfirst⟩, hrest⟩
      exact ⟨q, hhead, r', hfirst, hrest⟩

theorem exec_forM_error {l : List α} {r'' : Run} {e : ε}
    (h : exec (l.forM f) r = (.error e, r'')) :
    ∃ done a rest r', l = done ++ a :: rest ∧ exec (done.forM f) r = (.ok ⟨⟩, r') ∧
      exec (f a) r' = (.error e, r'') := by
  induction l generalizing r with
  | nil => cases h
  | cons a l ih =>
    rcases exec_bind_error.mp h with hhead | ⟨_, q, hhead, htail⟩
    · exact ⟨[], a, l, r, rfl, rfl, hhead⟩
    · obtain ⟨done, b, rest, q', rfl, hdone, hb⟩ := ih htail
      exact ⟨a :: done, b, rest, q', rfl, exec_forM_cons_ok.mpr ⟨q, hhead, hdone⟩, hb⟩

theorem exec_forM_cons_error {a : α} {l : List α} {e : ε} (h : exec (f a) r = (.error e, r')) :
    exec ((a :: l).forM f) r = (.error e, r') :=
  exec_bind_of_error h

end

end Step

end StakeGov
