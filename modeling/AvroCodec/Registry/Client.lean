import Mathlib.Data.List.Basic
import AvroCodec.Go.Basic

namespace AvroCodec.Registry

open AvroCodec.Go

/-! `registry.Client` (`registry/client.go`): a schema registry client that
caches the schemas it fetches by id.  The HTTP transport, `url.Parse`, JSON
decoding and `avro.Parse` are not among the sources; they are the parameters
bundled in `Env`, and the transport may answer differently from one call to the
next. -/

def contentType : String := "application/vnd.schemaregistry.v1+json"

structure Credentials where
  username : String
  password : String
  deriving DecidableEq, Repr

structure HttpRequest where
  method : String
  url : String
  body : Option String
  contentType : String
  basicAuth : Option Credentials
  deriving DecidableEq, Repr

structure HttpResponse where
  statusCode : Int
  body : String
  deriving DecidableEq, Repr

structure Error where
  statusCode : Int
  code : Int
  message : String
  deriving DecidableEq, Repr

def Error.error (e : Error) : String :=
  if e.message ≠ "" then e.message else "registry error: " ++ toString e.statusCode

/-- The errors the client's methods return, and the run-time panic that one of
them can raise instead of returning. -/
inductive ClientError
  /-- A run-time panic: it unwinds to the caller instead of returning. -/
  | panic (p : Panic)
  /-- From `client.Do`. -/
  | transport (err : String)
  /-- A status of 400 or more. -/
  | registry (err : Error)
  /-- From decoding the JSON body. -/
  | decode (err : String)
  /-- From `avro.Parse`. -/
  | parse (err : String)
  deriving DecidableEq, Repr

structure SchemaInfoPayload where
  schema : String
  id : Int
  version : Int
  deriving DecidableEq, Repr

/-- `SchemaInfo`; `schema` is `nil` when `avro.Parse` fails. -/
structure SchemaInfo (σ : Type) where
  schema : Option σ
  id : Int
  version : Int

/-- What the client calls that is not among the sources: `client.Do`,
`url.Parse`, the JSON codec of each payload type, and `avro.Parse`. -/
structure Env (σ : Type) where
  transport : HttpRequest → Except String HttpResponse
  /-- `url.Parse`, which `NewClient` and `http.NewRequest` call. -/
  parseURL : String → Except String Unit
  /-- `jsoniter.Marshal(schemaPayload{Schema: s})`. -/
  marshalSchema : String → String
  decodeSchema : String → Except String String
  decodeId : String → Except String Int
  decodeSubjects : String → Except String (List String)
  decodeVersions : String → Except String (List Int)
  decodeSchemaInfo : String → Except String SchemaInfoPayload
  /-- The `error_code` and `message` of an `Error` after decoding a body into
  it; the decode error itself is dropped, so a field stays zero where the body
  does not set it. -/
  decodeError : String → Int × String
  parse : String → Except String σ

structure Client (σ : Type) where
  base : String
  creds : Credentials
  /-- The `concurrent.Map` from ids to schemas. -/
  cache : List (Int × σ)

variable {σ α : Type}

def trimSuffix (s suffix : String) : String :=
  if suffix.toList.isSuffixOf s.toList then ⟨s.toList.take (s.length - suffix.length)⟩ else s

/-- `NewClient(baseURL, WithBasicAuth(...))`. -/
def newClient (env : Env σ) (baseURL : String) (creds : Credentials) :
    Except String (Client σ) := do
  env.parseURL baseURL
  pure ⟨trimSuffix baseURL "/", creds, []⟩

/-- `http.NewRequest(method, c.base+uri, body)`, which fails where `url.Parse`
does, with the content type, and basic auth when either credential is set. -/
def Client.newRequest (env : Env σ) (c : Client σ) (method uri : String)
    (body : Option String) : Except String HttpRequest :=
  (env.parseURL (c.base ++ uri)).map fun _ =>
    { method, url := c.base ++ uri, body, contentType,
      basicAuth := if c.creds.username ≠ "" ∨ c.creds.password ≠ "" then some c.creds else none }

def responseError (env : Env σ) (resp : HttpResponse) : Error :=
  ⟨resp.statusCode, (env.decodeError resp.body).1, (env.decodeError resp.body).2⟩

/-- `c.request(method, uri, in, out)`, with `decode` filling `out`.  The error
of `http.NewRequest` is dropped, so where it fails `req` is `nil` and
`req.Header.Set` panics before anything is sent. -/
def request (env : Env σ) (c : Client σ) (method uri : String) (body : Option String)
    (decode : String → Except String α) : Except ClientError α := do
  let req ← (c.newRequest env method uri body).mapError fun _ => .panic nilDereference
  let resp ← (env.transport req).mapError .transport
  if 400 ≤ resp.statusCode then throw (.registry (responseError env resp))
  (decode resp.body).mapError .decode

/-- The body shared by the methods that fetch one schema: `GET uri`, then
`avro.Parse` of the `schema` field. -/
def fetchSchema (env : Env σ) (c : Client σ) (uri : String) : Except ClientError σ := do
  let s ← request env c "GET" uri none env.decodeSchema
  (env.parse s).mapError .parse

/-- What `GetSchema(id)` does on a cache miss: the uncached client. -/
def fetchSchemaById (env : Env σ) (c : Client σ) (id : Int) : Except ClientError σ :=
  fetchSchema env c ("/schemas/ids/" ++ toString id)

def getSchema (env : Env σ) (c : Client σ) (id : Int) : Except ClientError σ × Client σ :=
  match c.cache.lookup id with
  | some schema => (.ok schema, c)
  | none =>
      match fetchSchemaById env c id with
      | .ok schema => (.ok schema, { c with cache := (id, schema) :: c.cache })
      | .error err => (.error err, c)

def getSubjects (env : Env σ) (c : Client σ) : Except ClientError (List String) :=
  request env c "GET" "/subjects" none env.decodeSubjects

def getVersions (env : Env σ) (c : Client σ) (subject : String) : Except ClientError (List Int) :=
  request env c "GET" ("/subjects/" ++ subject ++ "/versions") none env.decodeVersions

def getSchemaByVersion (env : Env σ) (c : Client σ) (subject : String) (version : Int) :
    Except ClientError σ :=
  fetchSchema env c ("/subjects/" ++ subject ++ "/versions/" ++ toString version)

def getLatestSchema (env : Env σ) (c : Client σ) (subject : String) : Except ClientError σ :=
  fetchSchema env c ("/subjects/" ++ subject ++ "/versions/latest")

/-- `GetLatestSchemaInfo(subject)`: the id and version come back with the
`avro.Parse` error, if any, as `payload.Parse()` returns them. -/
def getLatestSchemaInfo (env : Env σ) (c : Client σ) (subject : String) :
    Except ClientError (SchemaInfo σ × Option String) := do
  let p ← request env c "GET" ("/subjects/" ++ subject ++ "/versions/latest") none
    env.decodeSchemaInfo
  pure <| match env.parse p.schema with
    | .ok schema => (⟨some schema, p.id, p.version⟩, none)
    | .error err => (⟨none, p.id, p.version⟩, some err)

/-- The body shared by `CreateSchema` and `IsRegistered`: `POST` the schema,
read back an id, and parse the schema locally; a parse error comes with the
id. -/
def postSchema (env : Env σ) (c : Client σ) (uri schema : String) :
    Except ClientError (Int × Except String σ) := do
  let id ← request env c "POST" uri (some (env.marshalSchema schema)) env.decodeId
  pure (id, env.parse schema)

def createSchema (env : Env σ) (c : Client σ) (subject schema : String) :
    Except ClientError (Int × Except String σ) :=
  postSchema env c ("/subjects/" ++ subject ++ "/versions") schema

def isRegistered (env : Env σ) (c : Client σ) (subject schema : String) :
    Except ClientError (Int × Except String σ) :=
  postSchema env c ("/subjects/" ++ subject) schema

/-- A run of `GetSchema` calls, each answered by the registry of its moment:
the results in order, and the client at the end. -/
def runGetSchema (c : Client σ) : List (Env σ × Int) → List (Except ClientError σ) × Client σ
  | [] => ([], c)
  | (env, id) :: calls =>
      let run := runGetSchema (getSchema env c id).2 calls
      ((getSchema env c id).1 :: run.1, run.2)

theorem newClient_eq {env : Env σ} {baseURL : String} {creds : Credentials} {c : Client σ}
    (h : newClient env baseURL creds = .ok c) : c = ⟨trimSuffix baseURL "/", creds, []⟩ := by
  unfold newClient at h
  cases hp : env.parseURL baseURL with
  | error e => rw [hp] at h; cases h
  | ok u => rw [hp] at h; cases h; rfl

theorem Error.error_ne_empty (e : Error) : e.error ≠ "" := by
  unfold Error.error
  split
  · assumption
  · intro h
    have hlen := congrArg String.length h
    simp only [String.length_append] at hlen
    have hprefix : "registry error: ".length = 16 := by decide
    have hempty : "".length = 0 := rfl
    omega

end AvroCodec.Registry
