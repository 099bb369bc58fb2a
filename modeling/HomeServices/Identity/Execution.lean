import HomeServices.Concurrent.Schedule
import HomeServices.Identity.Runs
import HomeServices.Identity.Sample

/-!
# Executing schedules

A schedule says which calls start, which call acts next and what its operation leaves open, and
when the clock advances. Executing one shows that its end is reachable.

* `Command`, `driver`, `execute`: commands and schedules, executed.
* `returned`: what is checked of a call that a schedule has run to its end.
* `Sample`: schedules of single calls.
-/

namespace Identity

open ReadCommitted Interaction

deriving instance DecidableEq for Request
deriving instance DecidableEq for OutboxError, EnsureSigningKeyError, SignUpError,
  ResendVerificationError, VerifyEmailError, LoginError, LoginResult, UpdateProfileError,
  UpdatePasswordError, Reply

variable [Platform]

abbrev Command := Interaction.Command Request Choice ℕ

instance (allowed : Request → Prop) [DecidablePred allowed] :
    DecidablePred (Scope.of allowed).allowed := inferInstanceAs (DecidablePred allowed)

instance (allowed : Request → Prop) (h : Hist) (o : Op) (l : Session) (g : World) :
    Decidable ((Scope.of allowed).guard h o l g) := inferInstanceAs (Decidable True)

section Execute

variable (dep : Deployment) (scope : Scope) [DecidablePred scope.allowed]
  [∀ h o l g, Decidable (scope.guard h o l g)]

/-- The service, executed: the requests that occur start calls, operations are performed where their
condition holds, and time passes. -/
def driver : Driver (machine dep scope) Request Choice ℕ where
  start i req := if scope.allowed req then some (⟨i, req, none⟩, handler dep req) else none
  perform ch h l g o := if scope.guard h o l g then perform ch l g o else none
  outside clock g := if g.clock ≤ clock then some { g with clock } else none
  start_ok := by
    intro i req l p h
    split_ifs at h with hreq
    cases h
    exact ⟨req, hreq, rfl, rfl⟩
  perform_ok := by
    intro ch h l g o r l' g' hp
    split_ifs at hp with hguard
    exact ⟨⟨ch, hp⟩, hguard⟩
  outside_ok := by
    intro clock g g' h
    split_ifs at h with hle
    cases h
    exact ⟨clock, hle, rfl⟩

abbrev execute (c : State) (cmds : List Command) : Option State := (driver dep scope).execute c cmds

end Execute

/-- The call `i` has returned, and its request, its answer and its history pass the test. -/
def returned (i : ℕ) (test : Request → Reply → Hist → Bool) (c : State) : Bool :=
  match c.thread i with
  | some ⟨l, .ret r, h⟩ => test l.request r h
  | _ => false

theorem of_returned {i : ℕ} {test : Request → Reply → Hist → Bool} {c : State}
    (hend : returned i test c = true) :
    ∃ l r h, c.thread i = some ⟨l, .ret r, h⟩ ∧ test l.request r h = true := by
  unfold returned at hend
  split at hend
  · rename_i l r h ht
    exact ⟨l, r, h, ht, hend⟩
  · cases hend

/-! ## Sample schedules -/

namespace Sample

/-- Nothing fails and nothing is drawn. -/
def fine : Choice := {}

/-- A call that performs as many operations as there are choices. -/
def call (i : ℕ) (req : Request) (chs : List Choice) : List Command :=
  .start i req :: chs.map (.act i)

def deployment : Deployment := ⟨⟨List.replicate 32 7, by decide⟩, "https://home.ryanseipp.com"⟩

def rawToken (b : UInt8) : Bytes := List.replicate 32 b

/-- A sign-up of the user `u`, whose token and event take the next two ids. -/
def signUp (i : ℕ) (username email : String) (u : Uuid) (b : UInt8) : List Command :=
  call i (.signUp username email "Ada" "Lovelace" (some "password"))
    ([fine, fine, { uuid := u }, { uuid := u + 1 }, { uuid := u + 2 }, { bytes := rawToken b }] ++
      List.replicate 9 fine)

def verifyEmail (i : ℕ) (b : UInt8) : List Command :=
  call i (.verifyEmail (Base64Url.encodeString (rawToken b))) (List.replicate 7 fine)

def resendVerification (i : ℕ) (email : String) (token : Uuid) (b : UInt8) : List Command :=
  call i (.resendVerification email)
    ([fine, fine, fine, { uuid := token }, { uuid := token + 1 }, { bytes := rawToken b }] ++
      List.replicate 7 fine)

def ensureSigningKey (i : ℕ) (kid : Uuid) : List Command :=
  call i .ensureSigningKey
    [fine, fine, { bytes := List.replicate 64 9 }, { uuid := kid }, { bytes := List.replicate 12 3 },
      fine]

def login (i : ℕ) (email : String) (id : Uuid) : List Command :=
  call i (.login email "password")
    (List.replicate 10 fine ++ [{ bytes := rawToken 0 }, { uuid := id }, fine, fine])

/-- A user who has not verified the address yet. -/
def ada : StoredUser :=
  { id := 1, username := "ada", email := "ada@home", givenName := "Ada", familyName := "Lovelace",
    passwordHash := "$password", emailVerified := false, status := .pendingVerification,
    createdAt := 0, updatedAt := 0, deletedAt := none }

def adaToken : StoredToken :=
  { id := 2, userId := 1, tokenHash := rawToken 5, expiresAt := hour, consumedAt := none,
    createdAt := 0 }

theorem unique_pair (u : StoredUser) (t : StoredToken) : UniqueKeys [Row.user u, Row.token t] := by
  refine List.pairwise_pair.mpr fun k hu ht => ?_
  change k ∈ Row.keys (.user u) at hu
  change k ∈ Row.keys (.token t) at ht
  simp only [Row.keys] at hu ht
  split_ifs at hu ht <;> grind

/-- A user signs up, verifies the address and logs in. -/
def session : List Command :=
  ensureSigningKey 0 100 ++ signUp 1 "ada" "ada@home" 1 5 ++ verifyEmail 2 5 ++ login 3 "ada@home" 7

end Sample

end Identity
