import HomeServices.Identity.Access
import HomeServices.Identity.TokenWindow

/-!
# The published keys

`get_jwks` publishes the keys by which tokens are checked elsewhere. Who checks tokens by the document
decides as the service does at a state of its database.

* `JwkSet.ofDocument`, `decideBy`: a reader of the document, and its decisions.
* `JwkSet.ofJson_toJson`, `ofDocument_print`: a document reads back.
* **`jwks_decides`**: they are the service's own.
-/

namespace Identity

open ReadCommitted Interaction

section PublishedKeys

variable [Platform] {dep : Deployment} {db : List Row} {clock : ℕ} {c : RpcState}

omit [Platform] in
/-- The keys of a list of JWKs. -/
def JwkSet.ofKeys : Json → Option JwkSet
  | .arr items => (items.mapM Jwk.ofJson).map .mk
  | _ => none

omit [Platform] in
/-- The keys of a JWK set. -/
def JwkSet.ofJson : Json → Option JwkSet
  | .obj members => Json.required JwkSet.ofKeys members "keys"
  | _ => none

/-- The keys of a document. -/
def JwkSet.ofDocument (document : Bytes) : Option JwkSet := (jsonParse document).bind JwkSet.ofJson

omit [Platform] in
/-- Elements that are read back, in order. -/
theorem mapM_map_eq_some {α β γ : Type} {f : β → Option γ} {g : α → β} {h : α → γ}
    (hf : ∀ a, f (g a) = some (h a)) (l : List α) : (l.map g).mapM f = some (l.map h) := by
  rw [Json.mapM_eq_some, List.forall₂_map_left_iff, List.forall₂_map_right_iff]
  exact List.forall₂_same.mpr fun a _ => hf a

omit [Platform] in
theorem JwkSet.ofJson_toJson (set : JwkSet) : JwkSet.ofJson set.toJson = some set := by
  have hkeys := mapM_map_eq_some (h := id) Jwk.ofJson_toJson set.keys
  change JwkSet.ofKeys (.arr (set.keys.map Jwk.toJson)) = _
  rw [JwkSet.ofKeys, hkeys, List.map_id]
  rfl

/-- What is decided about a token by a set of keys. -/
def decideBy (set : JwkSet) (authorization : Option Bytes) (now : UInt64) : Except Status Uuid := do
  let token ← extractBearerToken authorization
  let header ← decodeJwtHeader token
  let jwk ← findKey set.keys header.kid
  checkToken token jwk now

/-- A set of keys reads back. -/
theorem ofDocument_print {set : JwkSet} (h : Reads set.toJson) :
    JwkSet.ofDocument (jsonPrint set.toJson) = some set := by
  rw [JwkSet.ofDocument, h, Option.bind_some, JwkSet.ofJson_toJson]

/-- **A document of `get_jwks` decides about every token as the service does at some state that was shown to
the call**, and its keys are those that were not revoked there. -/
theorem jwks_decides (hjson : ∀ set : JwkSet, Reads set.toJson)
    (hc : Reachable (rpcMachine dep) (rpcBoot db clock) c) {i : ℕ} {l : Client} {response : Response}
    {h : RpcHist} (ht : c.thread i = some ⟨l, .ret (.call (.ok response)), h⟩)
    (htask : l.task = .call .getJwks) :
    ∃ document set rows, response = .getJwks document ∧ JwkSet.ofDocument document = some set ∧
      Shown h rows ∧ (∀ jwk, jwk ∈ set.keys ↔ ∃ k, .key k ∈ rows ∧ k.status ≠ "revoked" ∧
        Jwk.ofJson k.publicJwk = some jwk) ∧
      ∀ authorization now, decideBy set authorization now = authenticateAt authorization rows now := by
  have hread := read_of_return hc ht
  rw [htask] at hread
  obtain ⟨rows, jwks, hrows, hjwks, rfl⟩ := hread
  refine ⟨_, _, rows, rfl, ofDocument_print (hjson _), hrows, fun jwk => ?_, fun authorization now => ?_⟩
  · refine (Json.mem_mapM hjwks).trans ⟨?_, ?_⟩
    · rintro ⟨j, hj, hparse⟩
      obtain ⟨k, hk, rfl⟩ := List.mem_map.mp hj
      obtain ⟨hk, hstatus⟩ := List.mem_filter.mp hk
      exact ⟨k, mem_signingKeys.mp hk, of_decide_eq_true hstatus, hparse⟩
    · rintro ⟨k, hk, hstatus, hparse⟩
      exact ⟨_, List.mem_map_of_mem (List.mem_filter.mpr ⟨mem_signingKeys.mpr hk, decide_eq_true hstatus⟩),
        hparse⟩
  · simp only [decideBy, authenticateAt, hjwks, buildJwkSet, orError, bind, Except.bind]

/-! ## An example -/

/-- The call `i` has read the keys. -/
def readsKeys (i : ℕ) (c : RpcState) : Bool :=
  match c.thread i with
  | some ⟨⟨_, .call .getJwks, _⟩, .ret (.call (.ok _)), _⟩ => true
  | _ => false

end PublishedKeys

namespace Sample

/-- A member value: a flat one, or a list of records. -/
abbrev Nested := Value ⊕ List (List (String × String))

def record : Json → Option (List (String × String))
  | .obj ms => ms.mapM fun m => m.2.asString.map (m.1, ·)
  | _ => none

def nest : Json → Nested
  | .arr items => ((items.mapM record).map .inr).getD (.inl (flat (.arr items)))
  | j => .inl (flat j)

def unnest : Nested → Json
  | .inl v => unflat v
  | .inr records => .arr (records.map fun ms => .obj (ms.map fun m => (m.1, .str m.2)))

def nestedMembers : Codec (List (String × Nested)) :=
  .list (.pair .string (.sum (.sum bool (.sum .u64 (.sum .string (.list .string))))
    (.list (.list (.pair .string .string)))))

/-- The sample platform, with JSON texts of lists of records. -/
@[reducible] def documents : Platform :=
  { platform with
    jsonPrint
      | .obj ms => nestedMembers.enc (ms.map fun m => (m.1, nest m.2))
      | _ => []
    jsonParse bs := (nestedMembers.whole bs).map fun ms => .obj (ms.map fun m => (m.1, unnest m.2)) }

attribute [local instance] documents

theorem reads_set (set : JwkSet) : Reads set.toJson := by
  have hrecords := mapM_map_eq_some (f := record) (g := Jwk.toJson) (fun _ => rfl) set.keys
  have hnest : unnest (nest (.arr (set.keys.map Jwk.toJson))) = .arr (set.keys.map Jwk.toJson) := by
    rw [nest, hrecords, Option.map_some, Option.getD_some, unnest, List.map_map]
    rfl
  change (nestedMembers.whole (nestedMembers.enc _)).map _ = _
  rw [Codec.whole_enc]
  change some (Json.obj [("keys", unnest (nest (.arr (set.keys.map Jwk.toJson))))]) = _
  rw [hnest]
  rfl

/-- A signing key is made, and read. -/
def publishing : List (Interaction.Command Task RpcChoice ℕ) :=
  asCalls (ensureSigningKey 0 100) ++ .start 1 (.call .getJwks) :: List.replicate 2 (.act 1 ⟨0, fine⟩)

end Sample

section Example

attribute [local instance] Sample.documents

/-- The document of the sample key decides as the service does. -/
theorem jwks_decides_publishing : ∃ c l response h,
    Reachable (rpcMachine Sample.deployment) (rpcBoot [] 0) c ∧
    c.thread 1 = some ⟨l, .ret (.call (.ok response)), h⟩ ∧ ∃ document set rows,
      response = .getJwks document ∧ JwkSet.ofDocument document = some set ∧ Shown h rows ∧
      (∀ jwk, jwk ∈ set.keys ↔ ∃ k, .key k ∈ rows ∧ k.status ≠ "revoked" ∧
        Jwk.ofJson k.publicJwk = some jwk) ∧
      ∀ authorization now, decideBy set authorization now = authenticateAt authorization rows now := by
  have hrun : ((rpcDriver Sample.deployment).execute (rpcBoot [] 0) Sample.publishing).any
      (readsKeys 1) = true := by decide +kernel
  obtain ⟨c, -, hc, hend⟩ := Driver.exists_of_execute hrun
  unfold readsKeys at hend
  split at hend
  · rename_i pid tx response h ht
    exact ⟨c, _, response, h, hc, ht, jwks_decides Sample.reads_set hc ht rfl⟩
  · cases hend

end Example

end Identity
