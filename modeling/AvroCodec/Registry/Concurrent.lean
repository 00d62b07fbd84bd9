import AvroCodec.Registry.Cache

namespace AvroCodec.Registry

/-! `GetSchema` called from several goroutines on one client.  `c.cache` is a
`concurrent.Map`, whose `Load` and `Store` are atomic; the request and
`avro.Parse` between them are not, but they read only the base URL and the
credentials, which no method writes.  So a call is three steps, `Load`, the
fetch and `Store`, and the steps of different calls interleave in any order,
each fetch answered by the registry of its moment.  `Store` prepends, and
`lookup` finds the newest entry, as `Store` overwrites. -/

variable {σ : Type}

/-- Where one call of `GetSchema(id)` is. -/
inductive Call (σ : Type)
  /-- `c.cache.Load(id)` is next. -/
  | load (id : Int)
  /-- The cache missed: the request and `avro.Parse` are next. -/
  | fetch (id : Int)
  /-- `c.cache.Store(id, schema)` is next. -/
  | store (id : Int) (schema : σ)
  /-- The call has returned `result`. -/
  | done (id : Int) (result : Except ClientError σ)

namespace Call

def step (env : Env σ) (c : Client σ) : Call σ → Client σ × Call σ
  | .load id =>
      match c.cache.lookup id with
      | some schema => (c, .done id (.ok schema))
      | none => (c, .fetch id)
  | .fetch id =>
      match fetchSchemaById env c id with
      | .ok schema => (c, .store id schema)
      | .error err => (c, .done id (.error err))
  | .store id schema => ({ c with cache := (id, schema) :: c.cache }, .done id (.ok schema))
  | .done id result => (c, .done id result)

def id : Call σ → Int
  | .load id | .fetch id | .store id _ | .done id _ => id

def pending : Call σ → Nat
  | .load _ => 3
  | .fetch _ => 2
  | .store _ _ => 1
  | .done _ _ => 0

variable {env : Env σ} {c : Client σ} {call : Call σ}

@[simp] theorem id_step : (call.step env c).2.id = call.id := by
  cases call with
  | load id => cases h : c.cache.lookup id <;> simp [step, h, Call.id]
  | fetch id => cases h : fetchSchemaById env c id <;> simp [step, h, Call.id]
  | store id schema => rfl
  | done id result => rfl

theorem pending_step : (call.step env c).2.pending = call.pending - 1 ∨
    (call.step env c).2.pending = 0 := by
  cases call with
  | load id => cases h : c.cache.lookup id <;> simp [step, h, pending]
  | fetch id => cases h : fetchSchemaById env c id <;> simp [step, h, pending]
  | store id schema => simp [step, pending]
  | done id result => simp [step, pending]

theorem step_step_step_load (env : Env σ) (c : Client σ) (id : Int) :
    let s₁ := (Call.load id).step env c
    let s₂ := s₁.2.step env s₁.1
    s₂.2.step env s₂.1 = ((getSchema env c id).2, .done id (getSchema env c id).1) := by
  rcases getSchema_cases env c id with ⟨s, hl, hg⟩ | ⟨s, hl, hf, hg⟩ | ⟨e, hl, hf, hg⟩
  · simp only [step, hl, hg]
  · simp only [step, hl, hf, hg]
  · simp only [step, hl, hf, hg]

/-- The registry of `env`, asked by client `c`, answers `reg id` for `id`
whenever its answer parses. -/
def Serves (reg : Int → σ) (env : Env σ) (c : Client σ) : Prop :=
  ∀ id s, fetchSchemaById env c id = .ok s → s = reg id

def Agrees (reg : Int → σ) : Call σ → Prop
  | .store id s => s = reg id
  | .done id (.ok s) => s = reg id
  | _ => True

theorem step_fst (env : Env σ) (c : Client σ) (call : Call σ) :
    (call.step env c).1 = match call with
      | .store id s => { c with cache := (id, s) :: c.cache }
      | _ => c := by
  cases call with
  | load id => cases h : c.cache.lookup id <;> simp only [step, h]
  | fetch id => cases h : fetchSchemaById env c id <;> simp only [step, h]
  | store id s => rfl
  | done id r => rfl

theorem agrees_step {reg : Int → σ} (hserves : Serves reg env c)
    (hcache : ∀ e ∈ c.cache, e.2 = reg e.1) (hcall : call.Agrees reg) :
    (∀ e ∈ (call.step env c).1.cache, e.2 = reg e.1) ∧ (call.step env c).2.Agrees reg := by
  rw [step_fst]
  cases call with
  | load id =>
      cases h : c.cache.lookup id with
      | none => exact ⟨hcache, by simp only [step, h, Agrees]⟩
      | some s =>
          obtain ⟨l₁, l₂, hl, -⟩ := List.lookup_eq_some_iff.mp h
          exact ⟨hcache, by simpa only [step, h, Agrees] using hcache (id, s) (by simp [hl])⟩
  | fetch id =>
      refine ⟨hcache, ?_⟩
      cases h : fetchSchemaById env c id with
      | error e => simp only [step, h, Agrees]
      | ok s => simpa only [step, h, Agrees] using hserves id s h
  | store id s =>
      refine ⟨?_, hcall⟩
      simp only [List.mem_cons, forall_eq_or_imp]
      exact ⟨hcall, hcache⟩
  | done id r => exact ⟨hcache, hcall⟩

theorem fetchSchemaById_step (env' : Env σ) :
    fetchSchemaById env' (call.step env c).1 = fetchSchemaById env' c := by
  rw [step_fst]
  cases call <;> rfl

def Transparent (f : Int → Except ClientError σ) : Call σ → Prop
  | .store id s => f id = .ok s
  | .done id r => r = f id
  | _ => True

theorem transparent_step {f : Int → Except ClientError σ} (hf : fetchSchemaById env c = f)
    (hcache : ∀ i s, c.cache.lookup i = some s → f i = .ok s) (hcall : call.Transparent f) :
    (∀ i s, (call.step env c).1.cache.lookup i = some s → f i = .ok s) ∧
      (call.step env c).2.Transparent f := by
  rw [step_fst]
  cases call with
  | load id =>
      cases h : c.cache.lookup id with
      | none => exact ⟨hcache, by simp only [step, h, Transparent]⟩
      | some s => exact ⟨hcache, by simpa only [step, h, Transparent] using (hcache id s h).symm⟩
  | fetch id =>
      refine ⟨hcache, ?_⟩
      cases h : fetchSchemaById env c id <;> simp only [step, h, Transparent] <;> rw [← hf, h]
  | store id s =>
      refine ⟨fun i t hl => ?_, hcall.symm⟩
      by_cases hi : i = id
      · subst hi
        rw [List.lookup_cons_self] at hl
        cases hl
        exact hcall
      · rw [List.lookup_cons, beq_false_of_ne hi] at hl
        exact hcache i t hl
  | done id r => exact ⟨hcache, hcall⟩

end Call

/-- The client and the calls in flight, one per goroutine. -/
structure Pool (σ : Type) where
  client : Client σ
  calls : List (Call σ)

namespace Pool

def step (p : Pool σ) (n : Nat) (env : Env σ) : Pool σ :=
  match p.calls[n]? with
  | none => p
  | some call => ⟨(call.step env p.client).1, p.calls.set n (call.step env p.client).2⟩

def run (p : Pool σ) : List (Nat × Env σ) → Pool σ
  | [] => p
  | (n, env) :: sched => (p.step n env).run sched

def start (c : Client σ) (ids : List Int) : Pool σ := ⟨c, ids.map .load⟩

variable {p : Pool σ} {n m : Nat} {env : Env σ} {call : Call σ}

@[simp] theorem getElem?_start (c : Client σ) (ids : List Int) (n : Nat) :
    (start c ids).calls[n]? = ids[n]?.map .load :=
  List.getElem?_map _ _ _

theorem step_of_getElem? (h : p.calls[n]? = some call) :
    p.step n env = ⟨(call.step env p.client).1, p.calls.set n (call.step env p.client).2⟩ := by
  simp only [step, h]

theorem getElem?_step_ne (hne : m ≠ n) : (p.step m env).calls[n]? = p.calls[n]? := by
  unfold step
  split
  · rfl
  · exact List.getElem?_set_ne hne

theorem fetchSchemaById_step (env' : Env σ) :
    fetchSchemaById env' (p.step n env).client = fetchSchemaById env' p.client := by
  cases hn : p.calls[n]? with
  | none => simp only [step, hn]
  | some call =>
      rw [step_of_getElem? hn]
      exact Call.fetchSchemaById_step env'

/-! A call given as many steps of its own as it has left has returned, whatever
the other goroutines do. -/

def pendingAt (p : Pool σ) (n : Nat) : Nat := (p.calls[n]?.map Call.pending).getD 0

theorem pendingAt_step_self (p : Pool σ) (n : Nat) (env : Env σ) :
    (p.step n env).pendingAt n ≤ p.pendingAt n - 1 ∨ (p.step n env).pendingAt n = 0 := by
  cases h : p.calls[n]? with
  | none => simp [pendingAt, step, h]
  | some call =>
      have hlt : n < p.calls.length := (List.getElem?_eq_some_iff.mp h).1
      rw [step_of_getElem? h]
      simp only [pendingAt, h, List.getElem?_set_self hlt, Option.map_some', Option.getD_some]
      rcases @Call.pending_step _ env p.client call with h' | h' <;>
        omega

theorem pendingAt_step_ne (hne : m ≠ n) : (p.step m env).pendingAt n = p.pendingAt n := by
  simp only [pendingAt, getElem?_step_ne hne]

theorem pendingAt_run (p : Pool σ) (sched : List (Nat × Env σ)) (n : Nat) :
    (p.run sched).pendingAt n ≤ p.pendingAt n - (sched.map Prod.fst).count n := by
  induction sched generalizing p with
  | nil => simp [run]
  | cons x sched ih =>
      obtain ⟨m, env⟩ := x
      have hrest := ih (p.step m env)
      simp only [run, List.map_cons, List.count_cons, beq_iff_eq] at hrest ⊢
      by_cases hmn : m = n
      · subst hmn
        rcases pendingAt_step_self p m env with h | h <;> simp only [if_true] <;> omega
      · rw [pendingAt_step_ne hmn] at hrest
        simp only [hmn, if_false]
        omega

theorem id_run (p : Pool σ) (sched : List (Nat × Env σ)) (n : Nat) :
    ((p.run sched).calls[n]?).map Call.id = (p.calls[n]?).map Call.id := by
  induction sched generalizing p with
  | nil => rfl
  | cons x sched ih =>
      obtain ⟨m, env⟩ := x
      rw [run, ih]
      by_cases hmn : m = n
      · subst hmn
        cases h : p.calls[m]? with
        | none => simp [step, h]
        | some call =>
            rw [step_of_getElem? h, List.getElem?_set_self (List.getElem?_eq_some_iff.mp h).1]
            simp
      · rw [getElem?_step_ne hmn]

theorem exists_done_run (p : Pool σ) (sched : List (Nat × Env σ)) {n : Nat} {id : Int}
    (hid : p.calls[n]?.map Call.id = some id)
    (hsteps : p.pendingAt n ≤ (sched.map Prod.fst).count n) :
    ∃ r, (p.run sched).calls[n]? = some (.done id r) := by
  have hzero : (p.run sched).pendingAt n = 0 := by
    have := pendingAt_run p sched n
    omega
  have hid' := id_run p sched n
  rw [hid] at hid'
  cases hcall : (p.run sched).calls[n]? with
  | none => rw [hcall] at hid'; cases hid'
  | some call =>
      rw [hcall, Option.map_some', Option.some.injEq] at hid'
      simp only [pendingAt, hcall, Option.map_some', Option.getD_some] at hzero
      cases call with
      | done id' r => exact ⟨r, by rw [← hid']; rfl⟩
      | load _ | fetch _ | store _ _ => cases hzero

/-! Calls that do not overlap are the sequential client. -/

def serial (k : Nat) : List (Env σ) → List (Nat × Env σ)
  | [] => []
  | env :: envs => (k, env) :: (k, env) :: (k, env) :: serial (k + 1) envs

theorem step_at_length (c : Client σ) (pre rest : List (Call σ)) (call : Call σ) (env : Env σ) :
    (⟨c, pre ++ call :: rest⟩ : Pool σ).step pre.length env =
      ⟨(call.step env c).1, pre ++ (call.step env c).2 :: rest⟩ := by
  have hget : (pre ++ call :: rest)[pre.length]? = some call := by
    rw [List.getElem?_append_right (Nat.le_refl _), Nat.sub_self, List.getElem?_cons_zero]
  rw [step_of_getElem? hget]
  simp [List.set_append_right]

theorem run_serial (c : Client σ) (pre : List (Call σ)) (calls : List (Env σ × Int)) :
    (⟨c, pre ++ (calls.map Prod.snd).map Call.load⟩ : Pool σ).run
        (serial pre.length (calls.map Prod.fst)) =
      ⟨(runGetSchema c calls).2,
        pre ++ (calls.map Prod.snd).zipWith Call.done (runGetSchema c calls).1⟩ := by
  induction calls generalizing c pre with
  | nil => simp [serial, run, runGetSchema]
  | cons call calls ih =>
      obtain ⟨env, id⟩ := call
      have hcall := Call.step_step_step_load env c id
      dsimp only at hcall
      have hrest := ih (getSchema env c id).2 (pre ++ [.done id (getSchema env c id).1])
      simp only [List.length_append, List.length_singleton, List.append_assoc,
        List.singleton_append] at hrest
      simp only [List.map_cons, serial, run, step_at_length, hcall, hrest, runGetSchema_cons,
        List.zipWith_cons_cons]

/-- Calls that do not overlap return what the sequential client returns, and
leave the client as it leaves it. -/
theorem start_run_serial (c : Client σ) (calls : List (Env σ × Int)) :
    (start c (calls.map Prod.snd)).run (serial 0 (calls.map Prod.fst)) =
      ⟨(runGetSchema c calls).2, (calls.map Prod.snd).zipWith Call.done (runGetSchema c calls).1⟩ :=
  run_serial c [] calls

/-! Against a registry that serves one schema per id, no interleaving returns
another: the cache and every call in flight agree with the registry. -/

/-- The cache and every call of the pool agree with `reg`. -/
def Agrees (reg : Int → σ) (p : Pool σ) : Prop :=
  (∀ e ∈ p.client.cache, e.2 = reg e.1) ∧ ∀ call ∈ p.calls, call.Agrees reg

theorem agrees_step {reg : Int → σ} (hserves : Call.Serves reg env p.client)
    (h : p.Agrees reg) :
    (p.step n env).Agrees reg := by
  cases hn : p.calls[n]? with
  | none => simpa [step, hn] using h
  | some call =>
      rw [step_of_getElem? hn]
      obtain ⟨hcache, hcall⟩ :=
        Call.agrees_step hserves h.1 (h.2 call (List.getElem?_mem hn))
      refine ⟨hcache, fun call' hmem => ?_⟩
      rcases List.mem_or_eq_of_mem_set hmem with hmem | rfl
      · exact h.2 call' hmem
      · exact hcall

theorem agrees_run {reg : Int → σ} (sched : List (Nat × Env σ))
    (hserves : ∀ x ∈ sched, Call.Serves reg x.2 p.client) (h : p.Agrees reg) :
    (p.run sched).Agrees reg := by
  induction sched generalizing p with
  | nil => exact h
  | cons x sched ih =>
      obtain ⟨m, env⟩ := x
      exact ih (fun x hx id s hf => hserves x (.tail _ hx) id s (by rwa [fetchSchemaById_step] at hf))
        (agrees_step (hserves _ (.head _)) h)

/-- Whatever the interleaving of the calls, against a registry that serves
`reg`, every call that returned a schema returned the registry's schema for
its id, and the cache holds no other. -/
theorem start_run_agrees (reg : Int → σ) {c : Client σ} (hcache : ∀ e ∈ c.cache, e.2 = reg e.1)
    (ids : List Int) (sched : List (Nat × Env σ))
    (hserves : ∀ x ∈ sched, Call.Serves reg x.2 c) :
    (∀ e ∈ ((start c ids).run sched).client.cache, e.2 = reg e.1) ∧
      ∀ id s, Call.done id (.ok s) ∈ ((start c ids).run sched).calls → s = reg id := by
  have h := agrees_run (p := start c ids) sched hserves
    ⟨hcache, fun call hmem => by obtain ⟨id, -, rfl⟩ := List.mem_map.mp hmem; trivial⟩
  exact ⟨h.1, fun id s hmem => h.2 _ hmem⟩

theorem start_run_agrees_constRegistry :
    (∀ e ∈ registryClient.cache, e.2 = (fun _ => "a") e.1) ∧
      (∀ x ∈ [(0, constRegistry "a"), (1, constRegistry "a"), (0, constRegistry "a")],
        Call.Serves (fun _ => "a") x.2 registryClient) ∧
      ∀ id s, Call.done id (.ok s) ∈ ((start registryClient [7, 7]).run
        [(0, constRegistry "a"), (1, constRegistry "a"), (0, constRegistry "a")]).calls →
          s = (fun _ => "a") id := by
  have hserves : ∀ x ∈ [(0, constRegistry "a"), (1, constRegistry "a"), (0, constRegistry "a")],
      Call.Serves (fun _ => "a") x.2 registryClient := by
    intro x hx id s h
    simp only [List.mem_cons, List.mem_singleton, List.not_mem_nil, or_false] at hx
    rcases hx with rfl | rfl | rfl <;> exact (Except.ok.inj h).symm
  have hcache : ∀ e ∈ registryClient.cache, e.2 = (fun _ => "a") e.1 :=
    fun _ he => absurd he (List.not_mem_nil _)
  exact ⟨hcache, hserves, (start_run_agrees _ hcache _ _ hserves).2⟩

/-! Against one registry the cache is transparent under any interleaving: a
call returns what the uncached fetch returns, errors included, whichever
other calls stored before it. -/

/-- The client fetches as `f`, the cache holds only what `f` answers, and every
call holds or has returned what `f` answers. -/
structure Transparent (env : Env σ) (f : Int → Except ClientError σ) (p : Pool σ) : Prop where
  fetch : fetchSchemaById env p.client = f
  cache : ∀ i s, p.client.cache.lookup i = some s → f i = .ok s
  calls : ∀ call ∈ p.calls, call.Transparent f

theorem transparent_step {f : Int → Except ClientError σ} (h : p.Transparent env f) :
    (p.step n env).Transparent env f := by
  cases hn : p.calls[n]? with
  | none => simpa only [step, hn] using h
  | some call =>
      rw [step_of_getElem? hn]
      obtain ⟨hcache, hcall⟩ :=
        Call.transparent_step h.fetch h.cache (h.calls call (List.getElem?_mem hn))
      refine ⟨by rw [Call.fetchSchemaById_step, h.fetch], hcache, fun call' hmem => ?_⟩
      rcases List.mem_or_eq_of_mem_set hmem with hmem | rfl
      · exact h.calls call' hmem
      · exact hcall

theorem transparent_run {f : Int → Except ClientError σ} (sched : List Nat)
    (h : p.Transparent env f) : (p.run (sched.map fun n => (n, env))).Transparent env f := by
  induction sched generalizing p with
  | nil => exact h
  | cons n sched ih => exact ih (transparent_step h)

/-- Against one registry and from a sound cache (a new client's, for one),
once every goroutine has taken its three steps, in any interleaving, each has
returned what the uncached fetch returns for its id, errors included, and the
cache is still sound.  So concurrent calls return what the sequential client
returns. -/
theorem start_run_eq_fetch {env : Env σ} {c : Client σ} (hsound : CacheSound env c)
    (ids : List Int) (sched : List Nat) (hsteps : ∀ n < ids.length, 3 ≤ sched.count n) :
    CacheSound env ((start c ids).run (sched.map fun n => (n, env))).client ∧
      ((start c ids).run (sched.map fun n => (n, env))).calls =
        ids.map fun id => .done id (fetchSchemaById env c id) := by
  have h := transparent_run (p := start c ids) sched ⟨rfl, hsound, fun call hmem => by
    obtain ⟨id, -, rfl⟩ := List.mem_map.mp hmem
    trivial⟩
  refine ⟨fun i s hl => h.fetch ▸ h.cache i s hl, List.ext_getElem? fun n => ?_⟩
  rw [List.getElem?_map]
  by_cases hn : n < ids.length
  · have hload : (start c ids).calls[n]? = some (.load ids[n]) := by
      rw [getElem?_start, List.getElem?_eq_getElem hn, Option.map_some']
    have hid : (start c ids).calls[n]?.map Call.id = some ids[n] := by rw [hload]; rfl
    have hcount : ((sched.map fun n => (n, env)).map Prod.fst).count n = sched.count n := by
      rw [List.map_map]
      exact congrArg (List.count n) (List.map_id' sched)
    obtain ⟨r, hr⟩ := exists_done_run _ _ hid (by rw [pendingAt, hload, hcount]; exact hsteps n hn)
    have hr' : r = fetchSchemaById env c ids[n] := h.calls _ (List.getElem?_mem hr)
    rw [hr, hr', List.getElem?_eq_getElem hn, Option.map_some']
  · have hnone : ids[n]? = none := List.getElem?_eq_none (Nat.le_of_not_lt hn)
    have hid := id_run (start c ids) (sched.map fun n => (n, env)) n
    rw [getElem?_start, hnone, Option.map_none', Option.map_none', Option.map_eq_none'] at hid
    rw [hid, hnone, Option.map_none']

theorem start_run_eq_fetch_constRegistry :
    CacheSound (constRegistry "a") registryClient ∧
      (∀ n < [7, 8, 7].length, 3 ≤ [0, 2, 1, 2, 0, 1, 2, 0, 1].count n) ∧
      CacheSound (constRegistry "a") ((start registryClient [7, 8, 7]).run
        ([0, 2, 1, 2, 0, 1, 2, 0, 1].map fun n => (n, constRegistry "a"))).client ∧
      ((start registryClient [7, 8, 7]).run
        ([0, 2, 1, 2, 0, 1, 2, 0, 1].map fun n => (n, constRegistry "a"))).calls =
        [7, 8, 7].map fun id => .done id (fetchSchemaById (constRegistry "a") registryClient id) := by
  have hsound : CacheSound (constRegistry "a") registryClient := cacheSound_of_cache_nil rfl
  have hsteps : ∀ n < [7, 8, 7].length, 3 ≤ [0, 2, 1, 2, 0, 1, 2, 0, 1].count n := by decide
  exact ⟨hsound, hsteps, start_run_eq_fetch hsound _ _ hsteps⟩

end Pool

end AvroCodec.Registry
