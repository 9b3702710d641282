import Mathlib.Data.String.Basic

/-!
# API key authentication

`APIKeyAuth.cpp`: `SecureAPIKeyStore` keeps, for two built-in users, the SHA-256 hash of a
fixed key; `APIKeyAuthMiddleware::authenticate` hashes the key a request carries and compares
it with the stored hash; `APIController::processRequest` reports the outcome. `generateAPIKey`
draws 20 characters of an alphabet with `rand()` and appends the user id.

The hash and the draws are parameters of the model, and nothing is assumed of the hash. A
request passes exactly when its user is a built-in one and its key hashes to that user's
stored hash. A key `generateAPIKey` makes, 20 characters and then the user id, is never a
built-in key, so it passes only through a collision of the hash with a built-in key: the
request `main` calls valid is rejected unless SHA-256 collides on it, whatever `rand()`
returns.
-/

namespace DistributedCaching.Auth

/-- `SecureAPIKeyStore`: user ids with the hashes of their keys (`apiKeyStore`). -/
structure SecureAPIKeyStore where
  apiKeyStore : List (String × String)

namespace SecureAPIKeyStore

variable (hashKey : String → String)

/-- The constructor: the keys of `user1` and `user2`, hashed. -/
def create : SecureAPIKeyStore :=
  ⟨[("user1", hashKey "123456789user1"), ("user2", hashKey "abcdefghiuser2")]⟩

def validateKey (store : SecureAPIKeyStore) (userId apiKey : String) : Bool :=
  match store.apiKeyStore.lookup userId with
  | some stored => stored == hashKey apiKey
  | none => false

end SecureAPIKeyStore

/-- `APIKeyAuthMiddleware::authenticate`, over the store its constructor builds. -/
def authenticate (hashKey : String → String) (userId apiKey : String) : Bool :=
  (SecureAPIKeyStore.create hashKey).validateKey hashKey userId apiKey

structure APIRequest where
  userId : String
  apiKey : String

/-- A line written to standard output or to standard error. -/
inductive ConsoleLine where
  | out (text : String)
  | err (text : String)
  deriving DecidableEq, Repr

/-- `APIController::processRequest`. -/
def processRequest (hashKey : String → String) (request : APIRequest) : ConsoleLine :=
  if authenticate hashKey request.userId request.apiKey then
    .out ("Request authenticated for user: " ++ request.userId)
  else
    .err ("Authentication failed for user: " ++ request.userId)

/-- The alphabet `base` of `generateAPIKey`. -/
def keyAlphabet : String := "ABCDEFGHIJKLMNOPQRSTUVWXYZabcdefghijklmnopqrstuvwxyz0123456789"

/-- `generateAPIKey`, with `draw i` the value of the `i`-th `rand()` call after `srand`. The
alphabet is ASCII, so its byte positions are its character positions. -/
def generateAPIKey (draw : Nat → Nat) (userId : String) : String :=
  (List.range 20).foldl
    (fun apiKey i => apiKey.push (keyAlphabet.get ⟨draw i % keyAlphabet.length⟩)) "" ++ userId

/-! ## Which requests pass -/

/-- A user's key passes exactly when the user is a built-in one and the key hashes to the
hash of that user's built-in key. -/
theorem authenticate_iff (hashKey : String → String) (userId apiKey : String) :
    authenticate hashKey userId apiKey = true ↔
      (userId = "user1" ∧ hashKey apiKey = hashKey "123456789user1") ∨
        (userId = "user2" ∧ hashKey apiKey = hashKey "abcdefghiuser2") := by
  unfold authenticate SecureAPIKeyStore.validateKey SecureAPIKeyStore.create
  by_cases first : userId = "user1"
  · subst first
    simp only [List.lookup_cons, beq_self_eq_true, beq_iff_eq, true_and]
    exact ⟨fun same => .inl same.symm,
      fun | .inl same => same.symm | .inr ⟨different, _⟩ => absurd different (by decide)⟩
  · have notFirst : (userId == "user1") = false := beq_eq_false_iff_ne.2 first
    by_cases second : userId = "user2"
    · subst second
      simp only [List.lookup_cons, notFirst, beq_self_eq_true, beq_iff_eq, true_and]
      exact ⟨fun same => .inr same.symm,
        fun | .inl ⟨different, _⟩ => absurd different first | .inr same => same.symm⟩
    · have notSecond : (userId == "user2") = false := beq_eq_false_iff_ne.2 second
      simp only [List.lookup_cons, notFirst, notSecond, List.lookup_nil]
      simp [first, second]

theorem length_foldl_push (pick : Nat → Char) (indices : List Nat) (apiKey : String) :
    (indices.foldl (fun apiKey i => apiKey.push (pick i)) apiKey).length =
      apiKey.length + indices.length := by
  induction indices generalizing apiKey with
  | nil => rfl
  | cons i rest inductionHypothesis =>
      rw [List.foldl_cons, inductionHypothesis, String.length_push, List.length_cons]
      omega

theorem generateAPIKey_length (draw : Nat → Nat) (userId : String) :
    (generateAPIKey draw userId).length = 20 + userId.length := by
  rw [generateAPIKey, String.length_append, length_foldl_push, List.length_range]
  rfl

/-- `processRequest` reports success exactly for a request whose key hashes to its built-in
user's stored hash. -/
theorem processRequest_eq (hashKey : String → String) (request : APIRequest) :
    processRequest hashKey request =
      if (request.userId = "user1" ∧ hashKey request.apiKey = hashKey "123456789user1") ∨
          (request.userId = "user2" ∧ hashKey request.apiKey = hashKey "abcdefghiuser2") then
        .out ("Request authenticated for user: " ++ request.userId)
      else .err ("Authentication failed for user: " ++ request.userId) :=
  if_congr (authenticate_iff hashKey request.userId request.apiKey) rfl rfl

/-- A generated key is longer than either built-in key. -/
theorem generateAPIKey_ne_of_length {builtIn : String} (short : builtIn.length = 14)
    (draw : Nat → Nat) (userId : String) : generateAPIKey draw userId ≠ builtIn := fun same => by
  have long := generateAPIKey_length draw userId
  rw [same, short] at long
  omega

/-- For every hash: `processRequest` reports success, on standard output, exactly for a
request whose user is a built-in one and whose key hashes to the hash of that user's
built-in key, and failure, on standard error, otherwise. A key `generateAPIKey` makes for a
user, whatever its draws, is accepted only when it differs from a built-in key and the hash
collides on the two. -/
theorem processRequest_accepts_only_builtIn_keys (hashKey : String → String) :
    (∀ request : APIRequest, processRequest hashKey request =
      if (request.userId = "user1" ∧ hashKey request.apiKey = hashKey "123456789user1") ∨
          (request.userId = "user2" ∧ hashKey request.apiKey = hashKey "abcdefghiuser2") then
        .out ("Request authenticated for user: " ++ request.userId)
      else .err ("Authentication failed for user: " ++ request.userId)) ∧
    ∀ (draw : Nat → Nat) (userId : String),
      processRequest hashKey ⟨userId, generateAPIKey draw userId⟩ =
          .out ("Request authenticated for user: " ++ userId) →
        ∃ builtIn ∈ ["123456789user1", "abcdefghiuser2"],
          generateAPIKey draw userId ≠ builtIn ∧
            hashKey (generateAPIKey draw userId) = hashKey builtIn := by
  refine ⟨processRequest_eq hashKey, fun draw userId accepted => ?_⟩
  rw [processRequest_eq] at accepted
  split at accepted
  · rename_i passes
    rcases passes with ⟨-, collides⟩ | ⟨-, collides⟩
    · exact ⟨_, List.mem_cons_self _ _, generateAPIKey_ne_of_length (by decide) draw userId,
        collides⟩
    · exact ⟨_, List.mem_cons_of_mem _ (List.mem_singleton_self _),
        generateAPIKey_ne_of_length (by decide) draw userId, collides⟩
  · exact absurd accepted nofun

/-- A hash that maps every key to the same digest: a generated key passes for `user1`. -/
theorem constantHash_accepts_generated_key :
    processRequest (fun _ => "") ⟨"user1", generateAPIKey (fun _ => 0) "user1"⟩ =
        .out "Request authenticated for user: user1" ∧
      ((∀ request : APIRequest, processRequest (fun _ => "") request =
        if (request.userId = "user1" ∧ "" = "") ∨ (request.userId = "user2" ∧ "" = "") then
          .out ("Request authenticated for user: " ++ request.userId)
        else .err ("Authentication failed for user: " ++ request.userId)) ∧
      ∀ (draw : Nat → Nat) (userId : String),
        processRequest (fun _ => "") ⟨userId, generateAPIKey draw userId⟩ =
            .out ("Request authenticated for user: " ++ userId) →
          ∃ builtIn ∈ ["123456789user1", "abcdefghiuser2"],
            generateAPIKey draw userId ≠ builtIn ∧ "" = "") :=
  ⟨rfl, processRequest_accepts_only_builtIn_keys fun _ => ""⟩

end DistributedCaching.Auth
