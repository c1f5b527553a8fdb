import PowerfarmKernel.Kernel.Sample
import PowerfarmKernel.Lib.Runs

/-!
# Webhook ingress

`accept_delivery` of `worker/github_webhook.py` takes the signed webhook deliveries of
GitHub into an inbox, one file for each delivery. A delivery that is sent again must not be
taken in twice, and the file decides: it is created exclusively, and where it exists already
the delivery is a duplicate.

The file is created before its content is written. A call that is stopped in between –
because the write fails, or the process dies – leaves a file with a part of the envelope, or
nothing, and the same delivery sent again is then a duplicate of a delivery that was lost.
`PowerfarmKernel.Webhook.ingress_exact` says that this is the only way to lose one.
-/

namespace PowerfarmKernel

namespace Webhook

/-! ### Deliveries -/

/-- What `json.loads` makes of some bytes. -/
inductive Loaded where
  /-- A value. -/
  | value (v : CanonValue) : Loaded
  /-- `JSONDecodeError`. -/
  | malformed : Loaded
  /-- Any other exception: the bytes are no text, or too deeply nested. -/
  | raised : Loaded

/-- **The functions the ingress imports.** -/
structure Imports where
  /-- `hmac.new(key, message, hashlib.sha256).hexdigest()`. -/
  hmac : Bytes → Bytes → String
  /-- `hashlib.sha256(data).hexdigest()`. -/
  sha256 : Bytes → String
  /-- `str.casefold`. -/
  casefold : String → String
  /-- `json.loads`. -/
  loads : Bytes → Loaded
  /-- `json.dumps(value, separators=(",", ":"), sort_keys=True).encode()`, or nothing where it
  raises. -/
  dumps : CanonValue → Option Bytes

/-- How a call ends early once its delivery has been checked. -/
inductive Stop where
  /-- The directory of the inbox is not made. -/
  | mkdir : Stop
  /-- The file is not opened. -/
  | opening : Stop
  /-- The file is created, and only some bytes get there. -/
  | writing (written : ℕ) : Stop
deriving DecidableEq

/-- **A call of `accept_delivery`** on the inbox, the time it reads off the clock, and where
it stops early, if it does. -/
structure Call where
  headers : List (String × String)
  body : Bytes
  secret : String
  receivedAt : String
  stop : Option Stop

/-- How a call does not return. -/
inductive Failure where
  /-- `WebhookError`. -/
  | webhook (status : ℕ) (message : String) : Failure
  /-- Any other exception, or the end of the process. -/
  | other : Failure
deriving DecidableEq

/-- What the checks read off a delivery. -/
structure Delivery where
  id : String
  event : String
  payload : List (String × CanonValue)

/-- `MAX_BODY_BYTES`. -/
def maxBodyBytes : ℕ := 1024 * 1024

/-- `ALLOWED_EVENTS`. -/
def allowedEvents : List String := ["ping", "push", "release", "workflow_run"]

/-- `DELIVERY_RE.fullmatch`. -/
def isDeliveryId (s : String) : Bool :=
  1 ≤ s.length ∧ s.length ≤ 100 ∧
    s.toList.all fun c => c.isAlphanum ∨ c = '-'

variable (I : Imports)

/-- `_header`. -/
def header (headers : List (String × String)) (name : String) : String :=
  match headers.find? fun h => I.casefold h.1 = I.casefold name with
  | some h => h.2
  | none => ""

/-- The signature a body has under a secret. -/
def expected (c : Call) : String := "sha256=" ++ I.hmac (encode c.secret) c.body

/-- A check that raises a `WebhookError` when its condition holds. -/
def refuse (condition : Prop) [Decidable condition] (status : ℕ) (message : String) :
    Except Failure Unit :=
  if condition then .error (.webhook status message) else .ok ()

/-- `hmac.compare_digest`, of two strings: both must be ASCII. -/
def compareDigest (a b : String) : Except Failure Bool :=
  if (a ++ b).toList.all fun c => c.toNat < 128 then .ok (a = b) else .error .other

/-- What `accept_delivery` checks before it touches the inbox. -/
def check (c : Call) : Except Failure Delivery := do
  refuse (c.secret = "") 503 "GitHub webhook secret is not configured"
  refuse (c.body.length > maxBodyBytes) 413 "GitHub webhook payload is too large"
  let signature := header I c.headers "X-Hub-Signature-256"
  refuse (signature = "") 401 "invalid GitHub webhook signature"
  let valid ← compareDigest signature (expected I c)
  refuse (valid = false) 401 "invalid GitHub webhook signature"
  let delivery := header I c.headers "X-GitHub-Delivery"
  let event := header I c.headers "X-GitHub-Event"
  refuse (isDeliveryId delivery = false) 400 "invalid GitHub delivery id"
  refuse (event ∉ allowedEvents) 422 "unsupported GitHub event"
  match I.loads c.body with
  | .value (.dict payload) => return ⟨delivery, event, payload⟩
  | .value _ => .error (.webhook 400 "GitHub webhook payload must be a JSON object")
  | .malformed => .error (.webhook 400 "GitHub webhook payload is not valid JSON")
  | .raised => .error .other

/-- The envelope of a delivery. -/
def envelope (c : Call) (d : Delivery) : CanonValue := .dict
  [("delivery_id", .str d.id), ("event", .str d.event), ("payload", .dict d.payload),
    ("payload_sha256", .str (I.sha256 c.body)), ("received_at", .str c.receivedAt)]

/-- What is written into the file of a delivery. -/
def data (c : Call) (d : Delivery) : Option Bytes :=
  (I.dumps (envelope I c d)).map fun line => line ++ [10]

/-- The file of a delivery. -/
def Delivery.path (d : Delivery) : String := d.id ++ ".json"

/-! ### The inbox -/

/-- **The inbox**: whether its directory is there, and its files. -/
structure Inbox where
  made : Bool
  files : Dict String Bytes

/-- The end of `accept_delivery`: the file is created exclusively, and then written. -/
def deposit (c : Call) (path : String) (data : Bytes) (inbox : Inbox) :
    Except Failure (Bool × String) × Inbox :=
  if path ∈ inbox.files.keys then (.ok (false, path), inbox)
  else match c.stop with
    | some (.writing written) =>
        (.error .other, { inbox with files := inbox.files.set path (data.take written) })
    | _ => (.ok (true, path), { inbox with files := inbox.files.set path data })

/-- **`accept_delivery`.** -/
def acceptDelivery (c : Call) (inbox : Inbox) : Except Failure (Bool × String) × Inbox :=
  match check I c with
  | .error e => (.error e, inbox)
  | .ok d =>
      if c.stop = some .mkdir then (.error .other, inbox)
      else
        let made := { inbox with made := true }
        match data I c d with
        | none => (.error .other, made)
        | some data =>
            if c.stop = some .opening then (.error .other, made)
            else deposit c d.path data made

/-! ### What one call does -/

section Step

variable {I} {c : Call} {inbox : Inbox} {d : Delivery} {content : Bytes} {path : String}

/-- **A valid signature**: the call presents the signature of its body. -/
def Signed (I : Imports) (c : Call) : Prop :=
  c.secret ≠ "" ∧ header I c.headers "X-Hub-Signature-256" = expected I c

theorem refuse_bind_ok {α : Type} {condition : Prop} [Decidable condition] {status : ℕ}
    {message : String} {f : Unit → Except Failure α} {a : α} :
    (refuse condition status message >>= f) = .ok a ↔ ¬condition ∧ f () = .ok a := by
  rw [refuse]
  by_cases h : condition
  · rw [if_pos h]
    exact ⟨fun hok => (by cases hok), fun hok => absurd h hok.1⟩
  · rw [if_neg h]
    exact ⟨fun hok => ⟨h, hok⟩, fun hok => hok.2⟩

/-- **Only signed bodies pass the checks.** -/
theorem signed_of_check (h : check I c = .ok d) : Signed I c := by
  rw [check, refuse_bind_ok, refuse_bind_ok] at h
  obtain ⟨hsecret, -, h⟩ := h
  rw [refuse_bind_ok] at h
  obtain ⟨-, h⟩ := h
  rw [compareDigest] at h
  split at h
  · change (refuse _ _ _ >>= _) = _ at h
    rw [refuse_bind_ok] at h
    exact ⟨hsecret, of_decide_eq_true (eq_true_of_ne_false h.1)⟩
  · cases h

/-- What a call gets into a file it creates. -/
def Call.written (c : Call) (data : Bytes) : Bytes :=
  match c.stop with
  | some (.writing written) => data.take written
  | _ => data

/-- **A call creates a file.** -/
structure Creates (I : Imports) (inbox : Inbox) (c : Call) (path : String) (data : Bytes) :
    Prop where
  checked : ∃ d, check I c = .ok d ∧ d.path = path ∧ Webhook.data I c d = some data
  reached : c.stop ≠ some .mkdir ∧ c.stop ≠ some .opening
  fresh : path ∉ inbox.files.keys

/-- **What a call answers, and what it does to the inbox.** -/
inductive Effect (I : Imports) (inbox : Inbox) (c : Call) :
    Except Failure (Bool × String) → Inbox → Prop
  | refuses (e : Failure) (hcheck : check I c = .error e) : Effect I inbox c (.error e) inbox
  /-- It ends before the file is opened. -/
  | ends (made : Bool) : Effect I inbox c (.error .other) { inbox with made := made }
  | finds (d : Delivery) (hcheck : check I c = .ok d) (hpath : d.path ∈ inbox.files.keys) :
      Effect I inbox c (.ok (false, d.path)) { inbox with made := true }
  /-- It creates the file; what the stop decides is how much gets there. -/
  | creates (path : String) (data : Bytes) (r : Except Failure (Bool × String))
      (hcreates : Creates I inbox c path data) (hr : r = .error .other ∨ r = .ok (true, path)) :
      Effect I inbox c r ⟨true, inbox.files.set path (c.written data)⟩

theorem acceptDelivery_spec (I : Imports) (inbox : Inbox) (c : Call) :
    Effect I inbox c (acceptDelivery I c inbox).1 (acceptDelivery I c inbox).2 := by
  rw [acceptDelivery]
  split
  · rename_i e hcheck
    exact .refuses e hcheck
  rename_i d hcheck
  split
  · exact .ends inbox.made
  rename_i hmkdir
  dsimp only
  split
  · exact .ends true
  rename_i data hdata
  split
  · exact .ends true
  rename_i hopening
  rw [deposit]
  split
  · rename_i hpath
    exact .finds d hcheck hpath
  rename_i hpath
  have hcreates : Creates I inbox c d.path data :=
    ⟨⟨d, hcheck, rfl, hdata⟩, ⟨hmkdir, hopening⟩, hpath⟩
  split
  · rename_i written hstop
    have hcreated := Effect.creates d.path data (.error .other) hcreates (Or.inl rfl)
    rwa [Call.written, hstop] at hcreated
  · rename_i hstop
    have hwritten : c.written data = data := by
      rw [Call.written]
      split
      · rename_i written hwriting
        exact absurd hwriting (hstop written)
      · rfl
    have hcreated := Effect.creates d.path data (.ok (true, d.path)) hcreates (Or.inr rfl)
    rwa [hwritten] at hcreated

/-- A call that creates a file gets into it what it writes before it stops. -/
theorem Creates.files {path : String} {data : Bytes} (h : Creates I inbox c path data) :
    (acceptDelivery I c inbox).2.files = inbox.files.set path (c.written data) := by
  obtain ⟨d, hcheck, rfl, hdata⟩ := h.checked
  rw [acceptDelivery, hcheck]
  dsimp only
  rw [if_neg h.reached.1, hdata]
  dsimp only
  rw [if_neg h.reached.2, deposit, if_neg h.fresh, Call.written]
  split
  · rfl
  · rfl

/-- **A refused call leaves the inbox unchanged**: past the checks, an exception is never a
`WebhookError`. -/
theorem inbox_of_webhook {status : ℕ} {message : String}
    (h : (acceptDelivery I c inbox).1 = .error (.webhook status message)) :
    (acceptDelivery I c inbox).2 = inbox := by
  have hspec := acceptDelivery_spec I inbox c
  rw [h] at hspec
  generalize (acceptDelivery I c inbox).2 = inbox' at hspec ⊢
  cases hspec with
  | refuses e hcheck => rfl
  | creates path data r hcreates hr => rcases hr with hr | hr <;> cases hr

end Step

/-! ### Runs -/

open Runs

/-- What a call answers. -/
def answer (inbox : Inbox) (c : Call) : Except Failure (Bool × String) :=
  (acceptDelivery I c inbox).1

/-- The inbox after a call, however it ends. -/
def step (inbox : Inbox) (c : Call) : Inbox := (acceptDelivery I c inbox).2

/-- The inbox after a sequence of calls. -/
abbrev exec (inbox : Inbox) (calls : List Call) : Inbox := Runs.exec (step I) inbox calls

/-- **The file of a delivery holds the complete envelope** of a call whose body carried a
valid signature. -/
def Complete (calls : List Call) (inbox : Inbox) (path : String) : Prop :=
  ∃ c ∈ calls, ∃ d data, check I c = .ok d ∧ Signed I c ∧ d.path = path ∧
    Webhook.data I c d = some data ∧ inbox.files.get? path = some data

/-- **A call is cut short**: it creates a file and ends before the whole envelope is in it. -/
def CutShort (inbox : Inbox) (c : Call) (path : String) : Prop :=
  ∃ data written, Creates I inbox c path data ∧ c.stop = some (.writing written) ∧
    written < data.length

variable {I} {inbox : Inbox} {calls pre post : List Call} {c : Call} {path : String}
  {content data : Bytes}

theorem step_cases (I : Imports) (inbox : Inbox) (c : Call) :
    (step I inbox c).files = inbox.files ∨ ∃ path data, Creates I inbox c path data ∧
      (step I inbox c).files = inbox.files.set path (c.written data) := by
  have hspec := acceptDelivery_spec I inbox c
  rw [step]
  generalize acceptDelivery I c inbox = x at hspec ⊢
  obtain ⟨r, inbox'⟩ := x
  cases hspec with
  | refuses e hcheck => exact Or.inl rfl
  | ends made => exact Or.inl rfl
  | finds d hcheck hpath => exact Or.inl rfl
  | creates path data r hcreates hr => exact Or.inr ⟨path, data, hcreates, rfl⟩

/-- A file that is there is not touched again. -/
theorem files_le_exec (h : pre <+: calls) :
    (exec I inbox pre).files ≤ (exec I inbox calls).files := by
  refine exec_rel (R := fun s t : Inbox => s.files ≤ t.files) (fun _ => le_refl _) le_trans
    (fun inbox c => ?_) h
  rcases step_cases I inbox c with hsame | ⟨path, data, hcreates, hset⟩
  · rw [hsame]
  · rw [hset]
    refine Dict.le_set fun content hcontent => ?_
    exact absurd (Dict.mem_keys_of_get? hcontent) hcreates.fresh

/-- **Where a file comes from**: a call of the run created it. -/
theorem creates_of_get? (hempty : inbox.files = Dict.empty)
    (h : (exec I inbox calls).files.get? path = some content) :
    ∃ pre c data, Made calls pre c ∧ Creates I (exec I inbox pre) c path data ∧
      content = c.written data := by
  induction calls using List.reverseRecOn with
  | nil =>
    rw [exec, exec_nil, hempty] at h
    cases h
  | append_singleton calls c ih =>
    rw [exec, exec_concat] at h
    have hold : (exec I inbox calls).files.get? path = some content →
        ∃ pre c' data, Made (calls ++ [c]) pre c' ∧ Creates I (exec I inbox pre) c' path data ∧
          content = c'.written data := by
      intro h
      obtain ⟨pre, c', data, hmade, hrest⟩ := ih h
      exact ⟨pre, c', data, hmade.mono (List.prefix_append _ _), hrest⟩
    rcases step_cases I (exec I inbox calls) c with hsame | ⟨path', data, hcreates, hset⟩
    · rw [hsame] at h
      exact hold h
    · rw [hset] at h
      rcases Dict.get?_set_cases h with ⟨rfl, rfl⟩ | ⟨-, h⟩
      · exact ⟨calls, c, data, List.prefix_rfl, hcreates, rfl⟩
      · exact hold h

/-- What a call gets into a file stays there. -/
theorem get?_of_creates (hmade : Made calls pre c) (h : Creates I (exec I inbox pre) c path data) :
    (exec I inbox calls).files.get? path = some (c.written data) := by
  refine files_le_exec hmade path _ ?_
  rw [exec, exec_concat, step, h.files]
  exact Dict.get?_set_self

/-- **A call that returns leaves a file** for its delivery. -/
theorem isSome_of_answer {created : Bool}
    (h : answer I inbox c = .ok (created, path)) : ∃ content,
      (step I inbox c).files.get? path = some content := by
  have hspec := acceptDelivery_spec I inbox c
  rw [answer] at h
  rw [h] at hspec
  rw [step]
  generalize (acceptDelivery I c inbox).2 = inbox' at hspec ⊢
  cases hspec with
  | finds d hcheck hpath => exact Dict.mem_keys_iff.mp hpath
  | creates path' data r hcreates hr =>
    rcases hr with hr | hr
    · cases hr
    · cases hr
      exact ⟨_, Dict.get?_set_self⟩

/-- An envelope ends with the line it is; no part of it does. -/
theorem newline_notMem_take {line : Bytes} {written : ℕ} (hline : 10 ∉ line)
    (hwritten : written < (line ++ [10]).length) : 10 ∉ (line ++ [10]).take written := by
  rw [List.length_append, List.length_singleton] at hwritten
  rw [List.take_append_of_le_length (by omega)]
  exact fun hmem => hline (List.mem_of_mem_take hmem)

/-- What is complete stays so. -/
theorem Complete.mono (h : Complete I pre (exec I inbox pre) path) (hpre : pre <+: calls) :
    Complete I calls (exec I inbox calls) path := by
  obtain ⟨c, hc, d, data, hcheck, hsigned, hpath, hdata, hget⟩ := h
  exact ⟨c, hpre.subset hc, d, data, hcheck, hsigned, hpath, hdata, files_le_exec hpre _ _ hget⟩

/-- A call that returns finds its file complete, where no call that creates it is cut
short. -/
theorem complete_of_not_cutShort (hempty : inbox.files = Dict.empty) {created : Bool}
    (h : answer I (exec I inbox pre) c = .ok (created, path))
    (hnot : ∀ pre' c', Made (pre ++ [c]) pre' c' → ¬CutShort I (exec I inbox pre') c' path) :
    Complete I (pre ++ [c]) (exec I inbox (pre ++ [c])) path := by
  obtain ⟨content, hcontent⟩ := isSome_of_answer h
  have hget : (exec I inbox (pre ++ [c])).files.get? path = some content := by
    rw [exec, exec_concat]
    exact hcontent
  obtain ⟨pre', c', data, hmade, hcreates, rfl⟩ := creates_of_get? hempty hget
  obtain ⟨d, hcheck, hpath, hdata⟩ := hcreates.checked
  refine ⟨c', hmade.mem, d, data, hcheck, signed_of_check hcheck, hpath, hdata, ?_⟩
  rw [hget, Call.written]
  -- A stop in the middle of the writing would have cut the call short.
  split
  · rename_i written hstop
    have hlength : data.length ≤ written := by
      by_contra hshort
      exact hnot pre' c' hmade ⟨data, written, hcreates, hstop, not_le.mp hshort⟩
    rw [List.take_of_length_le hlength]
  · rfl

/-- A file that is complete was not cut short: a part of a line is no envelope. -/
theorem not_cutShort_of_complete (hline : ∀ v line, I.dumps v = some line → 10 ∉ line)
    (h : Complete I calls (exec I inbox calls) path) (hmade : Made calls pre c) :
    ¬CutShort I (exec I inbox pre) c path := by
  rintro ⟨data, written, hcreates, hstop, hshort⟩
  have hcontent := get?_of_creates hmade hcreates
  obtain ⟨c', -, d', data', -, -, -, hdata', hget⟩ := h
  obtain ⟨d, -, -, hdata⟩ := hcreates.checked
  rw [hget, Call.written, hstop] at hcontent
  obtain ⟨line, hdumps, rfl⟩ := Option.map_eq_some_iff.mp hdata
  obtain ⟨line', -, rfl⟩ := Option.map_eq_some_iff.mp hdata'
  have hpart : line' ++ [10] = (line ++ [10]).take written := Option.some.inj hcontent
  refine newline_notMem_take (hline _ _ hdumps) hshort ?_
  rw [← hpart]
  exact List.mem_append_right _ (List.mem_singleton_self _)

/-- **The ingress loses a delivery only where a call is cut short.** Let `json.dumps` write
one line. Then, whatever calls are made of an empty inbox and wherever they stop: a call
that raises a `WebhookError` leaves the inbox unchanged; and after a call has returned, the
file of its delivery holds the complete envelope of a call with a valid signature exactly
when no call that created the file was cut short. -/
theorem ingress_exact (I : Imports) (hline : ∀ v line, I.dumps v = some line → 10 ∉ line)
    (inbox : Inbox) (hempty : inbox.files = Dict.empty) (calls : List Call) :
    (∀ pre c status message, Made calls pre c →
        answer I (exec I inbox pre) c = .error (.webhook status message) →
        step I (exec I inbox pre) c = exec I inbox pre) ∧
      (∀ pre c created path, Made calls pre c →
        answer I (exec I inbox pre) c = .ok (created, path) →
        (Complete I calls (exec I inbox calls) path ↔
          ∀ pre' c', Made (pre ++ [c]) pre' c' → ¬CutShort I (exec I inbox pre') c' path)) ∧
      ((∀ pre c path, Made calls pre c → ¬CutShort I (exec I inbox pre) c path) →
        ∀ pre c created path, Made calls pre c →
          answer I (exec I inbox pre) c = .ok (created, path) →
          Complete I (pre ++ [c]) (exec I inbox (pre ++ [c])) path) := by
  refine ⟨fun pre c status message _ h => ?_, fun pre c created path hmade h => ⟨?_, ?_⟩, ?_⟩
  · exact inbox_of_webhook h
  · intro hcomplete pre' c' hmade'
    exact not_cutShort_of_complete hline hcomplete (hmade'.mono hmade)
  · intro hnot
    exact (complete_of_not_cutShort hempty h hnot).mono hmade
  · intro hnot pre c created path hmade h
    exact complete_of_not_cutShort hempty h fun pre' c' hmade' => hnot pre' c' path
      (hmade'.mono hmade)

/-! ### A delivery that is lost -/

namespace Sample

/-- Imports one can run: the digest is a checksum, and JSON is read and written as in
`PowerfarmKernel.Sample.primitives`. -/
def imports : Imports where
  hmac key message := PowerfarmKernel.Sample.digest "" (key ++ message)
  sha256 := PowerfarmKernel.Sample.digest ""
  casefold name := .ofList (name.toList.map Char.toLower)
  loads body :=
    match PowerfarmKernel.Sample.read body with
    | some v => .value v
    | none => .malformed
  dumps v :=
    let line := PowerfarmKernel.Sample.text v
    if 10 ∈ line then none else some line

theorem oneLine_imports : ∀ v line, imports.dumps v = some line → 10 ∉ line := by
  intro v line h
  change (if 10 ∈ PowerfarmKernel.Sample.text v then none
    else some (PowerfarmKernel.Sample.text v)) = some line at h
  split at h
  · cases h
  · rename_i hnot
    cases h
    exact hnot

/-- The body of a delivery. -/
def body : Bytes := PowerfarmKernel.Sample.text (.dict [("action", .str "published")])

/-- A release is delivered. -/
def release (stop : Option Stop) : Call where
  headers := [("x-github-delivery", "delivery-1"), ("x-github-event", "release"),
    ("x-hub-signature-256", "sha256=" ++ imports.hmac (encode "secret") body)]
  body := body
  secret := "secret"
  receivedAt := "2026-08-16T12:00:00+00:00"
  stop := stop

/-- An inbox without files. -/
def emptyInbox : Inbox := ⟨false, Dict.empty⟩

end Sample

/-- A delivery is taken in and sent again, and its file is complete. -/
theorem ingress_exact_release :
    answer Sample.imports (exec Sample.imports Sample.emptyInbox [Sample.release none])
      (Sample.release none) = .ok (false, "delivery-1.json") ∧
    Complete Sample.imports [Sample.release none, Sample.release none]
      (exec Sample.imports Sample.emptyInbox [Sample.release none, Sample.release none])
      "delivery-1.json" := by
  have hreturned : answer Sample.imports
      (exec Sample.imports Sample.emptyInbox [Sample.release none])
      (Sample.release none) = .ok (false, "delivery-1.json") := by
    decide +kernel
  refine ⟨hreturned, ?_⟩
  refine (ingress_exact Sample.imports Sample.oneLine_imports Sample.emptyInbox rfl
    [Sample.release none, Sample.release none]).2.2 ?_ [Sample.release none] (Sample.release none)
    _ _ List.prefix_rfl hreturned
  rintro pre c path hmade ⟨data, written, -, hstop, -⟩
  have hc : c = Sample.release none := by simpa using hmade.mem
  rw [hc] at hstop
  cases hstop

/-- **A delivery that is lost**: the first call is stopped when the file is there and empty,
and the delivery sent again is reported as a duplicate. -/
theorem duplicate_of_lost :
    answer Sample.imports
      (exec Sample.imports Sample.emptyInbox [Sample.release (some (.writing 0))])
      (Sample.release none) = .ok (false, "delivery-1.json") ∧
    ¬Complete Sample.imports [Sample.release (some (.writing 0)), Sample.release none]
      (exec Sample.imports Sample.emptyInbox
        [Sample.release (some (.writing 0)), Sample.release none]) "delivery-1.json" := by
  refine ⟨by decide +kernel, ?_⟩
  rintro ⟨c, -, d, data, -, -, -, hdata, hget⟩
  obtain ⟨line, -, rfl⟩ := Option.map_eq_some_iff.mp hdata
  have hempty : (exec Sample.imports Sample.emptyInbox
      [Sample.release (some (.writing 0)), Sample.release none]).files.get? "delivery-1.json"
        = some [] := by
    decide +kernel
  rw [hempty] at hget
  exact absurd (Option.some.inj hget).symm (List.append_ne_nil_of_right_ne_nil _ (by decide))

end Webhook

end PowerfarmKernel
