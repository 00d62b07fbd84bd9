import AvroCodec.Registry.Client

namespace AvroCodec.Registry

/-! The schema cache of `Client.GetSchema` over runs of calls.  A call either
hits the cache, or fetches and caches what it fetched, or fails and leaves the
client alone (`getSchema_cases`).  From that step: the cache keeps every entry
over any run; an id keeps the first schema returned for it whatever the
registry answers later; and against registries that keep serving what they
served, the cached client answers as the uncached fetch does. -/

variable {σ : Type} {env : Env σ} {c : Client σ} {id i : Int} {s : σ}

theorem getSchema_cases (env : Env σ) (c : Client σ) (id : Int) :
    (∃ s, c.cache.lookup id = some s ∧ getSchema env c id = (.ok s, c)) ∨
    (∃ s, c.cache.lookup id = none ∧ fetchSchemaById env c id = .ok s ∧
      getSchema env c id = (.ok s, { c with cache := (id, s) :: c.cache })) ∨
    (∃ e, c.cache.lookup id = none ∧ fetchSchemaById env c id = .error e ∧
      getSchema env c id = (.error e, c)) := by
  unfold getSchema
  cases hl : c.cache.lookup id with
  | some s => exact .inl ⟨s, rfl, rfl⟩
  | none =>
      cases hf : fetchSchemaById env c id with
      | ok s => exact .inr (.inl ⟨s, rfl, rfl, rfl⟩)
      | error e => exact .inr (.inr ⟨e, rfl, rfl, rfl⟩)

theorem getSchema_of_lookup (h : c.cache.lookup id = some s) (env : Env σ) :
    getSchema env c id = (.ok s, c) := by
  simp [getSchema, h]

theorem getSchema_snd_of_error {e : ClientError} (h : (getSchema env c id).1 = .error e) :
    (getSchema env c id).2 = c := by
  rcases getSchema_cases env c id with ⟨_, -, hg⟩ | ⟨_, -, -, hg⟩ | ⟨_, -, -, hg⟩ <;>
    rw [hg] at h ⊢
  cases h

theorem lookup_getSchema_of_ok (h : (getSchema env c id).1 = .ok s) :
    (getSchema env c id).2.cache.lookup id = some s := by
  rcases getSchema_cases env c id with ⟨t, hl, hg⟩ | ⟨t, -, -, hg⟩ | ⟨_, -, -, hg⟩ <;>
    rw [hg] at h ⊢ <;> cases h
  · exact hl
  · exact List.lookup_cons_self

theorem lookup_getSchema (h : c.cache.lookup i = some s) :
    (getSchema env c id).2.cache.lookup i = some s := by
  rcases getSchema_cases env c id with ⟨_, -, hg⟩ | ⟨t, hnone, -, hg⟩ | ⟨_, -, -, hg⟩ <;>
    rw [hg]
  · exact h
  · have hne : i ≠ id := by
      rintro rfl
      rw [hnone] at h
      cases h
    rw [List.lookup_cons, beq_false_of_ne hne]
    exact h
  · exact h

theorem lookup_of_lookup_getSchema (h : (getSchema env c id).2.cache.lookup i = some s) :
    c.cache.lookup i = some s ∨ (i = id ∧ fetchSchemaById env c id = .ok s) := by
  rcases getSchema_cases env c id with ⟨_, -, hg⟩ | ⟨t, -, hf, hg⟩ | ⟨_, -, -, hg⟩ <;>
    rw [hg] at h
  · exact .inl h
  · by_cases hi : i = id
    · subst hi
      rw [List.lookup_cons_self] at h
      cases h
      exact .inr ⟨rfl, hf⟩
    · rw [List.lookup_cons, beq_false_of_ne hi] at h
      exact .inl h
  · exact .inl h

@[simp] theorem getSchema_base (env : Env σ) (c : Client σ) (id : Int) :
    (getSchema env c id).2.base = c.base := by
  rcases getSchema_cases env c id with ⟨_, -, hg⟩ | ⟨_, -, -, hg⟩ | ⟨_, -, -, hg⟩ <;> rw [hg]

@[simp] theorem getSchema_creds (env : Env σ) (c : Client σ) (id : Int) :
    (getSchema env c id).2.creds = c.creds := by
  rcases getSchema_cases env c id with ⟨_, -, hg⟩ | ⟨_, -, -, hg⟩ | ⟨_, -, -, hg⟩ <;> rw [hg]

theorem fetchSchemaById_getSchema (env' : Env σ) (i : Int) :
    fetchSchemaById env' (getSchema env c id).2 i = fetchSchemaById env' c i := by
  unfold fetchSchemaById fetchSchema request Client.newRequest
  rw [getSchema_base, getSchema_creds]

/-! Runs of calls, by induction on the calls. -/

theorem runGetSchema_cons (c : Client σ) (env : Env σ) (id : Int) (calls : List (Env σ × Int)) :
    runGetSchema c ((env, id) :: calls) =
      ((getSchema env c id).1 :: (runGetSchema (getSchema env c id).2 calls).1,
        (runGetSchema (getSchema env c id).2 calls).2) := rfl

theorem lookup_runGetSchema (calls : List (Env σ × Int)) (h : c.cache.lookup i = some s) :
    (runGetSchema c calls).2.cache.lookup i = some s := by
  induction calls generalizing c with
  | nil => exact h
  | cons call calls ih => exact ih (lookup_getSchema h)

def constRegistry (schema : String) : Env String where
  transport _ := .ok ⟨200, schema⟩
  parseURL _ := .ok ()
  marshalSchema s := s
  decodeSchema := .ok
  decodeId _ := .error "no id"
  decodeSubjects _ := .ok []
  decodeVersions _ := .ok []
  decodeSchemaInfo _ := .error "no schema info"
  decodeError _ := (0, "")
  parse := .ok

def registryClient : Client String := ⟨"http://registry", ⟨"", ""⟩, []⟩

def downRegistry : Env String :=
  { constRegistry "" with transport := fun _ => .error "connection refused" }

/-- Once `GetSchema(id)` has returned a schema, `GetSchema(id)` returns it
again after any run of calls, without a request and whatever the registry
would now answer. -/
theorem getSchema_after_ok (h : (getSchema env c id).1 = .ok s)
    (calls : List (Env σ × Int)) (env' : Env σ) :
    getSchema env' (runGetSchema (getSchema env c id).2 calls).2 id =
      (.ok s, (runGetSchema (getSchema env c id).2 calls).2) :=
  getSchema_of_lookup (lookup_runGetSchema calls (lookup_getSchema_of_ok h)) env'

theorem getSchema_after_ok_registry_changed :
    (getSchema (constRegistry "a") registryClient 7).1 = .ok "a" ∧
      let after := (runGetSchema (getSchema (constRegistry "a") registryClient 7).2
        [(constRegistry "b", 8)]).2
      getSchema (constRegistry "b") after 7 = (.ok "a", after) :=
  ⟨rfl, @getSchema_after_ok _ (constRegistry "a") registryClient 7 "a" rfl _ _⟩

/-! Against registries that keep serving what they served, the cache is
transparent. -/

/-- Every cached schema is the one the registry of `env` serves for its id. -/
def CacheSound (env : Env σ) (c : Client σ) : Prop :=
  ∀ i s, c.cache.lookup i = some s → fetchSchemaById env c i = .ok s

theorem cacheSound_of_cache_nil (h : c.cache = []) : CacheSound env c := by
  intro i s hl
  rw [h] at hl
  cases hl

theorem newClient_cache {env' : Env σ} {baseURL : String} {creds : Credentials}
    (h : newClient env' baseURL creds = .ok c) : c.cache = [] := by
  rw [newClient_eq h]

theorem getSchema_fst_of_sound
    (hsound : ∀ s, c.cache.lookup id = some s → fetchSchemaById env c id = .ok s) :
    (getSchema env c id).1 = fetchSchemaById env c id := by
  rcases getSchema_cases env c id with ⟨_, hl, hg⟩ | ⟨_, -, hf, hg⟩ | ⟨_, -, hf, hg⟩ <;>
    rw [hg]
  · exact (hsound _ hl).symm
  · exact hf.symm
  · exact hf.symm

/-- Each registry of a run, once it has served a schema for the id it was asked,
serves that schema again to every later call that asks for that id. -/
def KeepsServing (f : Env σ → Int → Except ClientError σ) : List (Env σ × Int) → Prop
  | [] => True
  | (env, id) :: calls =>
      (∀ s, f env id = .ok s → ∀ x ∈ calls, x.2 = id → f x.1 id = .ok s) ∧ KeepsServing f calls

/-- The cached client refines the uncached one: each call of a run meets the
registry of its moment, and where those registries keep serving what they
served, from a cache that holds only what they serve (a new client's, for one),
every call returns what the uncached fetch would. -/
theorem runGetSchema_eq_fetch (calls : List (Env σ × Int))
    (hsound : ∀ x ∈ calls, ∀ s, c.cache.lookup x.2 = some s → fetchSchemaById x.1 c x.2 = .ok s)
    (hkeep : KeepsServing (fun env => fetchSchemaById env c) calls) :
    (runGetSchema c calls).1 = calls.map fun x => fetchSchemaById x.1 c x.2 := by
  induction calls generalizing c with
  | nil => rfl
  | cons call calls ih =>
      obtain ⟨env, id⟩ := call
      obtain ⟨hserved, hkeep⟩ := hkeep
      have hfetch : (fun env' => fetchSchemaById env' (getSchema env c id).2) =
          fun env' => fetchSchemaById env' c :=
        funext fun env' => funext (fetchSchemaById_getSchema env')
      have hrest := ih (c := (getSchema env c id).2) (fun x hx s hl => by
          rw [fetchSchemaById_getSchema]
          rcases lookup_of_lookup_getSchema hl with hl | ⟨rfl, hf⟩
          · exact hsound x (.tail _ hx) s hl
          · exact hserved s hf x hx rfl)
        (hfetch ▸ hkeep)
      simp only [fetchSchemaById_getSchema] at hrest
      rw [runGetSchema_cons, getSchema_fst_of_sound (hsound _ (.head _)), hrest, List.map_cons]

theorem runGetSchema_eq_fetch_down_then_up :
    newClient (constRegistry "a") "http://registry/" ⟨"", ""⟩ = .ok registryClient ∧
      (∀ x ∈ [(downRegistry, 7), (constRegistry "a", 7), (constRegistry "a", 7)], ∀ s,
        registryClient.cache.lookup x.2 = some s → fetchSchemaById x.1 registryClient x.2 = .ok s) ∧
      KeepsServing (fun env => fetchSchemaById env registryClient)
        [(downRegistry, 7), (constRegistry "a", 7), (constRegistry "a", 7)] ∧
      (runGetSchema registryClient
          [(downRegistry, 7), (constRegistry "a", 7), (constRegistry "a", 7)]).1 =
        [(downRegistry, 7), (constRegistry "a", 7), (constRegistry "a", 7)].map
          fun x => fetchSchemaById x.1 registryClient x.2 := by
  have hnew : newClient (constRegistry "a") "http://registry/" ⟨"", ""⟩ = .ok registryClient := rfl
  have hsound : ∀ x ∈ [(downRegistry, 7), (constRegistry "a", 7), (constRegistry "a", 7)], ∀ s,
      registryClient.cache.lookup x.2 = some s → fetchSchemaById x.1 registryClient x.2 = .ok s :=
    fun x _ s hl => by rw [newClient_cache hnew] at hl; cases hl
  have hkeep : KeepsServing (fun env => fetchSchemaById env registryClient)
      [(downRegistry, 7), (constRegistry "a", 7), (constRegistry "a", 7)] := by
    refine ⟨fun s h => (nomatch h), fun s h x hx _ => ?_, fun _ _ x hx => (nomatch hx), trivial⟩
    rw [List.mem_singleton.mp hx]
    exact h
  exact ⟨hnew, hsound, hkeep, runGetSchema_eq_fetch _ hsound hkeep⟩

end AvroCodec.Registry
