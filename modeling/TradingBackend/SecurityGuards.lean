import Mathlib.Data.List.Infix
import TradingBackend.ActivityLog
import TradingBackend.InputValidator

/-!
# Security guards

The second half of `validation/security_guards.go`: the fields of a request
are searched for attack patterns before they are validated. A pattern is a
substring, so it may be part of a legal identifier: "UPDATE_bot" is a client
id and counts as an SQL injection. Every suspicious field is logged, and
after `BlockAfterAttempts` of them the source is blocked; a field with five
patterns is refused at once. `guards_accept` says that nothing else is, and
that a client is refused as soon as that happens within
`SuspicionResetDuration`.
-/

namespace TradingBackend.Validation

def contains (s sub : List Char) : Bool := decide (sub <:+: s)

/-- The patterns of a table that `s` contains, with the label of the
table. -/
def matched (label : String) (s : List Char) (key : String → List Char)
    (patterns : List String) : List String :=
  (patterns.filter fun pattern => contains s (key pattern)).map (label ++ ·)

def sqlPatterns : List String :=
  ["'", "\"", "--", "/*", "*/", ";", "DROP", "DELETE", "INSERT", "UPDATE", "SELECT", "UNION",
    "OR 1=1", "OR '1'='1", "' OR ''='", "exec(", "execute(", "xp_"]

def xssPatterns : List String :=
  ["<script", "</script>", "javascript:", "onerror=", "onload=", "<iframe", "onclick=",
    "onmouseover=", "alert(", "eval("]

def pathPatterns : List String := ["../", "..\\", "..", "%2e%2e", "..;", "..%00"]

def cmdPatterns : List String := ["|", "&", ";", "`", "$(", "$(", "||", "&&", "\n", "\r"]

def ldapPatterns : List String := ["*)", "*(", "*|", "*&", "*(|"]

def nosqlPatterns : List String :=
  ["$where", "$ne", "$gt", "$lt", "$regex", "\x7b$", "[$", "||", "&&"]

def detectSuspiciousPatterns (u : Unicode) (input : String) : List String :=
  let runes := input.toList
  let length := input.utf8ByteSize
  let specialCharCount := runes.countP fun r =>
    !u.isLetter r && !u.isDigit r && r != '_' && r != '-'
  matched "SQL_INJECTION:" (runes.map u.toUpper) (·.toList.map u.toUpper) sqlPatterns
    ++ matched "XSS:" (runes.map u.toLower) String.toList xssPatterns
    ++ matched "PATH_TRAVERSAL:" runes String.toList pathPatterns
    ++ matched "CMD_INJECTION:" runes String.toList cmdPatterns
    ++ matched "LDAP_INJECTION:" runes String.toList ldapPatterns
    ++ matched "NOSQL_INJECTION:" runes String.toList nosqlPatterns
    ++ (if length / 3 < specialCharCount then ["EXCESSIVE_SPECIAL_CHARS"] else [])
    ++ (if runes.any fun r => isControl r && r != '\n' && r != '\t' && r != '\r' then
          ["CONTROL_CHARACTERS"] else [])
    ++ (if contains runes ['\x00'] then ["NULL_BYTE_INJECTION"] else [])
    ++ (if contains runes ['%'] && 10 < length && 5 < runes.count '%' then
          ["URL_ENCODING_ABUSE"] else [])

inductive GuardError where
  /-- "source %s is blocked due to excessive suspicious activity" -/
  | blocked (source : String)
  /-- "input contains multiple suspicious patterns: %s" -/
  | suspicious (patterns : String)
  /-- The error of a field check. -/
  | invalid (err : InputError)
  /-- "validation failed: %v" -/
  | validationFailed (errs : List InputError)
deriving DecidableEq

/-- What one run of the checks reads off the clock, in this order: the first
`ShouldBlock`, the two readings of `LogSuspiciousInput` and the second
`ShouldBlock`. -/
structure Clock where
  asked : Time
  created : Time
  now : Time
  checked : Time

/-- The readings for the three fields that are checked. -/
structure RequestClock where
  clientID : Clock
  symbol : Clock
  side : Clock

/-- `EnhancedInputValidator`, with the tables it reads. -/
structure EnhancedInputValidator where
  unicode : Unicode
  validator : InputValidator
  activityLogger : SuspiciousActivityLogger

def newEnhancedInputValidator (u : Unicode) (config : Option ValidationConfig)
    (secConfig : Option SecurityConfig) : EnhancedInputValidator :=
  ⟨u, newInputValidator config, newSuspiciousActivityLogger secConfig⟩

/-- The level of a field by the number of its patterns. -/
def suspicionLevel (patterns : List String) : SuspicionLevel :=
  if 5 ≤ patterns.length then .critical
  else if 3 ≤ patterns.length then .high
  else if 2 ≤ patterns.length then .medium
  else .low

theorem suspicionLevel_eq_critical {patterns : List String} :
    suspicionLevel patterns = .critical ↔ 5 ≤ patterns.length := by
  unfold suspicionLevel
  split_ifs with h <;> simp [h]

namespace EnhancedInputValidator

/-- A check that may log, with its error. -/
abbrev Outcome := EnhancedInputValidator × Option GuardError

/-- `if err := …; err != nil { return err }`. -/
def Outcome.andThen (r : Outcome) (next : EnhancedInputValidator → Outcome) : Outcome :=
  match r.2 with
  | some err => (r.1, some err)
  | none => next r.1

def validateWithSecurityChecks (eiv : EnhancedInputValidator) (input source : String)
    (clock : Clock) : Outcome :=
  if eiv.activityLogger.shouldBlock source clock.asked then (eiv, some (.blocked source))
  else
    let patterns := detectSuspiciousPatterns eiv.unicode input
    if patterns = [] then (eiv, none)
    else
      let patternStr := ", ".intercalate patterns
      let eiv := { eiv with activityLogger :=
        eiv.activityLogger.logSuspiciousInput source patternStr clock.created clock.now }
      if eiv.activityLogger.shouldBlock source clock.checked then (eiv, some (.blocked source))
      else if suspicionLevel patterns = .critical then (eiv, some (.suspicious patternStr))
      else (eiv, none)

def validateClientIDWithSecurity (eiv : EnhancedInputValidator) (clientID source : String)
    (clock : Clock) : Outcome :=
  (eiv.validateWithSecurityChecks clientID source clock).andThen fun eiv =>
    (eiv, (eiv.validator.validateClientID clientID).map .invalid)

def validateSymbolWithSecurity (eiv : EnhancedInputValidator) (symbol source : String)
    (clock : Clock) : Outcome :=
  (eiv.validateWithSecurityChecks symbol source clock).andThen fun eiv =>
    (eiv, (eiv.validator.validateSymbol symbol).map .invalid)

def validateOrderRequestWithSecurity (eiv : EnhancedInputValidator) (req : OrderRequest)
    (source : String) (clock : RequestClock) : Outcome :=
  (eiv.validateClientIDWithSecurity req.clientID source clock.clientID).andThen fun eiv =>
    (eiv.validateSymbolWithSecurity req.symbol source clock.symbol).andThen fun eiv =>
      (eiv.validateWithSecurityChecks req.side source clock.side).andThen fun eiv =>
        match eiv.validator.validateOrderRequest eiv.unicode req with
        | [] => (eiv, none)
        | errs => (eiv, some (.validationFailed errs))

/-- The requests of a source, one after the other, with the error of
each. -/
def run (eiv : EnhancedInputValidator) (source : String) :
    List (OrderRequest × RequestClock) → List (Option GuardError)
  | [] => []
  | (req, clock) :: rest =>
      let r := eiv.validateOrderRequestWithSecurity req source clock
      r.2 :: r.1.run source rest

/-! ## One field -/

variable {eiv : EnhancedInputValidator} {input source : String} {clock : Clock}
  {as : List Attempt}

/-- The validator after a field that was accepted. -/
def logged (eiv : EnhancedInputValidator) (source : String) (field : String × Clock) :
    EnhancedInputValidator :=
  let patterns := detectSuspiciousPatterns eiv.unicode field.1
  let patternStr := ", ".intercalate patterns
  if patterns = [] then eiv
  else { eiv with activityLogger :=
    eiv.activityLogger.logSuspiciousInput source patternStr field.2.created field.2.now }

theorem check_none_iff : (eiv.validateWithSecurityChecks input source clock).2 = none
    ↔ eiv.activityLogger.shouldBlock source clock.asked = false
      ∧ (detectSuspiciousPatterns eiv.unicode input ≠ [] →
        (eiv.logged source (input, clock)).activityLogger.shouldBlock source clock.checked = false
          ∧ (detectSuspiciousPatterns eiv.unicode input).length < 5) := by
  unfold validateWithSecurityChecks logged
  generalize detectSuspiciousPatterns eiv.unicode input = patterns
  dsimp only
  by_cases hasked : eiv.activityLogger.shouldBlock source clock.asked = true
  · simp [hasked]
  · by_cases hnone : patterns = []
    · simp [hasked, hnone]
    · rw [if_neg hasked, if_neg hnone, if_neg hnone]
      split_ifs with hchecked hcritical
      · simp [hasked, hnone, hchecked]
      · simp [hasked, hnone, hchecked, suspicionLevel_eq_critical.mp hcritical]
      · rw [suspicionLevel_eq_critical] at hcritical
        simp [hasked, hchecked, not_le.mp hcritical]

theorem check_eq_logged (h : (eiv.validateWithSecurityChecks input source clock).2 = none) :
    (eiv.validateWithSecurityChecks input source clock).1 = eiv.logged source (input, clock) := by
  unfold validateWithSecurityChecks at h ⊢
  unfold logged
  generalize detectSuspiciousPatterns eiv.unicode input = patterns at h ⊢
  dsimp only at h ⊢
  split_ifs at h ⊢
  · rfl
  · rfl

theorem logged_frame (eiv : EnhancedInputValidator) (source : String) (field : String × Clock) :
    (eiv.logged source field).unicode = eiv.unicode
      ∧ (eiv.logged source field).validator = eiv.validator
      ∧ (eiv.logged source field).activityLogger.config = eiv.activityLogger.config := by
  unfold logged SuspiciousActivityLogger.logSuspiciousInput
  dsimp only
  split_ifs <;> exact ⟨rfl, rfl, rfl⟩

def recorded (u : Unicode) (config : SecurityConfig) (fields : List (String × Clock)) :
    List Attempt :=
  if config.enableLogging then
    (fields.filter fun field => detectSuspiciousPatterns u field.1 ≠ []).map fun field =>
      ⟨field.2.created, field.2.now⟩
  else []

theorem knows_logged (h : eiv.activityLogger.Knows source as) (field : String × Clock) :
    (eiv.logged source field).activityLogger.Knows source
      (as ++ recorded eiv.unicode eiv.activityLogger.config [field]) := by
  unfold logged recorded
  dsimp only
  by_cases hnone : detectSuspiciousPatterns eiv.unicode field.1 = []
  · simpa [hnone] using h
  · by_cases henabled : eiv.activityLogger.config.enableLogging = true
    · simpa [hnone, henabled] using h.log henabled _ field.2.created field.2.now
    · simpa [hnone, henabled, SuspiciousActivityLogger.logSuspiciousInput] using h

/-! ## Field after field -/

theorem Outcome.andThen_none {r : Outcome} {next : EnhancedInputValidator → Outcome}
    (h : r.2 = none) : r.andThen next = next r.1 := by
  rw [andThen, h]

theorem Outcome.andThen_some {r : Outcome} {next : EnhancedInputValidator → Outcome}
    {err : GuardError} (h : r.2 = some err) : r.andThen next = r := by
  rw [andThen, h]
  exact Prod.ext rfl h.symm

theorem Outcome.andThen_congr {r : Outcome} {next next' : EnhancedInputValidator → Outcome}
    (h : r.2 = none → next r.1 = next' r.1) : r.andThen next = r.andThen next' := by
  cases hr : r.2 with
  | none => rw [andThen_none hr, andThen_none hr, h hr]
  | some err => rw [andThen_some hr, andThen_some hr]

def checks (eiv : EnhancedInputValidator) (source : String) : List (String × Clock) → Outcome
  | [] => (eiv, none)
  | field :: rest =>
      (eiv.validateWithSecurityChecks field.1 source field.2).andThen fun eiv =>
        eiv.checks source rest

variable {field : String × Clock} {fields fields' : List (String × Clock)}

theorem checks_cons_none_iff : (eiv.checks source (field :: fields)).2 = none
    ↔ (eiv.validateWithSecurityChecks field.1 source field.2).2 = none
      ∧ ((eiv.logged source field).checks source fields).2 = none := by
  rw [checks]
  cases h : (eiv.validateWithSecurityChecks field.1 source field.2).2 with
  | none => simp [Outcome.andThen_none h, check_eq_logged h]
  | some err => simp [Outcome.andThen_some h, h]

theorem checks_append (eiv : EnhancedInputValidator) (source : String)
    (fields fields' : List (String × Clock)) : eiv.checks source (fields ++ fields')
      = (eiv.checks source fields).andThen fun eiv => eiv.checks source fields' := by
  induction fields generalizing eiv with
  | nil => rfl
  | cons field fields ih =>
      rw [List.cons_append, checks, checks]
      cases h : (eiv.validateWithSecurityChecks field.1 source field.2).2 with
      | none => rw [Outcome.andThen_none h, Outcome.andThen_none h, ih]
      | some err =>
          rw [Outcome.andThen_some h, Outcome.andThen_some h, Outcome.andThen_some h]

def fieldsOf (r : OrderRequest × RequestClock) : List (String × Clock) :=
  [(r.1.clientID, r.2.clientID), (r.1.symbol, r.2.symbol), (r.1.side, r.2.side)]

theorem Outcome.andThen_valid {r : Outcome} (format : EnhancedInputValidator → Option InputError)
    (hformat : r.2 = none → format r.1 = none) :
    r.andThen (fun eiv => (eiv, (format eiv).map .invalid)) = r := by
  cases h : r.2 with
  | none =>
      rw [andThen_none h, hformat h]
      exact Prod.ext rfl h.symm
  | some err => exact andThen_some h

theorem checks_fieldsOf (eiv : EnhancedInputValidator) (source : String) (req : OrderRequest)
    (clock : RequestClock) : eiv.checks source (fieldsOf (req, clock))
      = (eiv.validateWithSecurityChecks req.clientID source clock.clientID).andThen fun eiv =>
          (eiv.validateWithSecurityChecks req.symbol source clock.symbol).andThen fun eiv =>
            (eiv.validateWithSecurityChecks req.side source clock.side).andThen fun eiv =>
              (eiv, none) := rfl

/-- For a request that is valid on its own only the guards matter. -/
theorem validateOrderRequestWithSecurity_eq {req : OrderRequest}
    (h : eiv.validator.validateOrderRequest eiv.unicode req = []) (source : String)
    (clock : RequestClock) : eiv.validateOrderRequestWithSecurity req source clock
      = eiv.checks source (fieldsOf (req, clock)) := by
  have hfields := InputValidator.validateOrderRequest_eq_nil.mp h
  have hclient : eiv.validateClientIDWithSecurity req.clientID source clock.clientID
      = eiv.validateWithSecurityChecks req.clientID source clock.clientID := by
    refine Outcome.andThen_valid (·.validator.validateClientID req.clientID) fun hnone => ?_
    rw [check_eq_logged hnone, (logged_frame ..).2.1]
    exact hfields.1
  rw [validateOrderRequestWithSecurity, hclient, checks_fieldsOf]
  refine Outcome.andThen_congr fun hnone => ?_
  obtain ⟨hunicode, hvalidator, -⟩ := logged_frame eiv source (req.clientID, clock.clientID)
  rw [check_eq_logged hnone]
  generalize eiv.logged source (req.clientID, clock.clientID) = eiv₁ at hunicode hvalidator
  have hsymbol : eiv₁.validateSymbolWithSecurity req.symbol source clock.symbol
      = eiv₁.validateWithSecurityChecks req.symbol source clock.symbol := by
    refine Outcome.andThen_valid (·.validator.validateSymbol req.symbol) fun hnone => ?_
    rw [check_eq_logged hnone, (logged_frame ..).2.1, hvalidator]
    exact hfields.2.1
  rw [hsymbol]
  refine Outcome.andThen_congr fun hnone => ?_
  rw [check_eq_logged hnone]
  refine Outcome.andThen_congr fun hnone => ?_
  rw [check_eq_logged hnone, (logged_frame ..).2.1, (logged_frame ..).1, (logged_frame ..).2.1,
    (logged_frame ..).1, hvalidator, hunicode, h]

theorem checks_frame (h : (eiv.checks source fields).2 = none) :
    (eiv.checks source fields).1.unicode = eiv.unicode
      ∧ (eiv.checks source fields).1.validator = eiv.validator := by
  induction fields generalizing eiv with
  | nil => exact ⟨rfl, rfl⟩
  | cons field fields ih =>
      obtain ⟨hfield, hrest⟩ := checks_cons_none_iff.mp h
      rw [checks, Outcome.andThen_none hfield, check_eq_logged hfield]
      obtain ⟨hunicode, hvalidator, -⟩ := logged_frame eiv source field
      exact ⟨(ih hrest).1.trans hunicode, (ih hrest).2.trans hvalidator⟩

theorem run_none_iff {reqs : List (OrderRequest × RequestClock)}
    (hvalid : ∀ r ∈ reqs, eiv.validator.validateOrderRequest eiv.unicode r.1 = []) :
    (∀ err ∈ eiv.run source reqs, err = none)
      ↔ (eiv.checks source (reqs.flatMap fieldsOf)).2 = none := by
  induction reqs generalizing eiv with
  | nil => simp [run, checks]
  | cons r reqs ih =>
      rw [List.forall_mem_cons] at hvalid
      rw [run, List.flatMap_cons, checks_append, validateOrderRequestWithSecurity_eq hvalid.1,
        List.forall_mem_cons]
      cases h : (eiv.checks source (fieldsOf r)).2 with
      | none =>
          obtain ⟨hunicode, hvalidator⟩ := checks_frame h
          rw [Outcome.andThen_none h, ← ih]
          · simp
          · rw [hunicode, hvalidator]
            exact hvalid.2
      | some err =>
          rw [Outcome.andThen_some h, h]
          simp

/-! ## The threshold -/

def Free (config : SecurityConfig) (as : List Attempt) : Prop :=
  as = [] ∨ (as.length : Int) < config.blockAfterAttempts

theorem Free.of_append {config : SecurityConfig} {as' : List Attempt}
    (h : Free config (as ++ as')) : Free config as := by
  rcases h with h | h
  · exact Or.inl (List.append_eq_nil_iff.mp h).1
  · refine Or.inr (lt_of_le_of_lt ?_ h)
    rw [List.length_append]
    omega

theorem not_blocked_of_free {sal : SuspiciousActivityLogger} (h : sal.Knows source as)
    (hfree : Free sal.config as) (t : Time) : sal.shouldBlock source t = false := by
  cases as with
  | nil =>
      have hnone : sal.attempts source = none := h
      simp [SuspiciousActivityLogger.shouldBlock, hnone]
  | cons first rest =>
      obtain ⟨stats, hstats, hcounts⟩ := h
      have hlt : ¬sal.config.blockAfterAttempts ≤ stats.count := by
        rcases hfree with hfree | hfree
        · cases hfree
        · rw [hcounts.count]
          exact not_le.mpr hfree
      simp [SuspiciousActivityLogger.shouldBlock, hstats, hlt]

theorem recorded_cons (u : Unicode) (config : SecurityConfig) (field : String × Clock)
    (fields : List (String × Clock)) :
    recorded u config (field :: fields) =
      recorded u config [field] ++ recorded u config fields := by
  unfold recorded
  split_ifs
  · rw [← List.map_append, ← List.filter_append]
    rfl
  · rfl

/-- Nothing is refused below the threshold, except for five patterns. -/
theorem checks_of_free (h : eiv.activityLogger.Knows source as)
    (hshort : ∀ field ∈ fields, (detectSuspiciousPatterns eiv.unicode field.1).length < 5)
    (hfree : Free eiv.activityLogger.config
      (as ++ recorded eiv.unicode eiv.activityLogger.config fields)) :
    (eiv.checks source fields).2 = none := by
  induction fields generalizing eiv as with
  | nil => rfl
  | cons field fields ih =>
      rw [List.forall_mem_cons] at hshort
      rw [recorded_cons, ← List.append_assoc] at hfree
      obtain ⟨hunicode, -, hconfig⟩ := logged_frame eiv source field
      have hlogged := knows_logged h field
      rw [checks_cons_none_iff, check_none_iff]
      generalize eiv.logged source field = eiv' at hunicode hconfig hlogged ⊢
      have hafter : Free eiv'.activityLogger.config
          (as ++ recorded eiv.unicode eiv.activityLogger.config [field]) := by
        rw [hconfig]
        exact hfree.of_append
      refine ⟨⟨?_, fun _ => ⟨?_, hshort.1⟩⟩, ?_⟩
      · exact not_blocked_of_free h hfree.of_append.of_append _
      · exact not_blocked_of_free hlogged hafter _
      · refine ih hlogged ?_ ?_
        · rw [hunicode]
          exact hshort.2
        · rw [hunicode, hconfig]
          exact hfree

/-- The readings of the clock lie within the reset duration. -/
def Within (config : SecurityConfig) (start : Time) (clock : Clock) : Prop :=
  start ≤ clock.created ∧ clock.checked < start + config.suspicionResetDuration

instance decidableWithin (config : SecurityConfig) (start : Time) (clock : Clock) :
    Decidable (Within config start clock) :=
  inferInstanceAs (Decidable (_ ∧ _))

theorem start_le_recorded {config : SecurityConfig} {start : Time} (u : Unicode)
    (hstart : ∀ a ∈ as, start ≤ a.created) (hwithin : Within config start field.2) :
    ∀ a ∈ as ++ recorded u config [field], start ≤ a.created := by
  refine List.forall_mem_append.mpr ⟨hstart, fun a ha => ?_⟩
  unfold recorded at ha
  split_ifs at ha
  · obtain ⟨field', hfield', rfl⟩ := List.mem_map.mp ha
    obtain rfl := List.mem_singleton.mp (List.mem_filter.mp hfield').1
    exact hwithin.1
  · cases ha

/-- A field that was not refused has not reached the threshold. -/
theorem free_recorded {start : Time} (h : eiv.activityLogger.Knows source as)
    (hfree : Free eiv.activityLogger.config as) (hstart : ∀ a ∈ as, start ≤ a.created)
    (hwithin : Within eiv.activityLogger.config start field.2)
    (hopen : detectSuspiciousPatterns eiv.unicode field.1 ≠ [] →
      (eiv.logged source field).activityLogger.shouldBlock source field.2.checked = false) :
    Free eiv.activityLogger.config
      (as ++ recorded eiv.unicode eiv.activityLogger.config [field]) := by
  obtain ⟨-, -, hconfig⟩ := logged_frame eiv source field
  have hlogged := knows_logged h field
  have hstart' := start_le_recorded eiv.unicode hstart hwithin
  by_cases hpatterns : detectSuspiciousPatterns eiv.unicode field.1 = []
  · simpa [recorded, hpatterns] using hfree
  · have hopen := hopen hpatterns
    generalize eiv.logged source field = eiv' at hconfig hlogged hopen
    generalize as ++ recorded eiv.unicode eiv.activityLogger.config [field] = as' at *
    by_contra hreached
    obtain ⟨hne, hle⟩ := not_or.mp hreached
    obtain ⟨first, rest, rfl⟩ := List.exists_cons_of_ne_nil hne
    rw [← hconfig, not_lt] at hle
    have hblocked := (hlogged.shouldBlock_iff hle field.2.checked).mpr ⟨first, rfl, ?_⟩
    · rw [hopen] at hblocked
      cases hblocked
    · rw [hconfig]
      have hfirst := hstart' first List.mem_cons_self
      exact sub_lt_iff_lt_add'.mpr (hwithin.2.trans_le (Int.add_le_add_right hfirst _))

/-- Once the threshold is reached a request is refused, if the first attempt
is not too long ago. -/
theorem free_of_checks {start : Time} (h : eiv.activityLogger.Knows source as)
    (hfree : Free eiv.activityLogger.config as) (hstart : ∀ a ∈ as, start ≤ a.created)
    (hwithin : ∀ field ∈ fields, Within eiv.activityLogger.config start field.2)
    (hnone : (eiv.checks source fields).2 = none) :
    (∀ field ∈ fields, (detectSuspiciousPatterns eiv.unicode field.1).length < 5)
      ∧ Free eiv.activityLogger.config
        (as ++ recorded eiv.unicode eiv.activityLogger.config fields) := by
  induction fields generalizing eiv as with
  | nil =>
      refine ⟨nofun, ?_⟩
      simpa [recorded] using hfree
  | cons field fields ih =>
      rw [List.forall_mem_cons] at hwithin ⊢
      rw [checks_cons_none_iff, check_none_iff] at hnone
      obtain ⟨⟨-, hsuspicious⟩, hrest⟩ := hnone
      obtain ⟨hunicode, -, hconfig⟩ := logged_frame eiv source field
      have hlogged := knows_logged h field
      have hstart' := start_le_recorded eiv.unicode hstart hwithin.1
      have hfree' := free_recorded h hfree hstart hwithin.1 fun h => (hsuspicious h).1
      generalize eiv.logged source field = eiv' at hunicode hconfig hlogged hrest
      have hih := ih hlogged (by rwa [hconfig]) hstart' (by rw [hconfig]; exact hwithin.2) hrest
      rw [hunicode, hconfig, List.append_assoc, ← recorded_cons] at hih
      refine ⟨⟨?_, hih.1⟩, hih.2⟩
      by_cases hpatterns : detectSuspiciousPatterns eiv.unicode field.1 = []
      · simp [hpatterns]
      · exact (hsuspicious hpatterns).2

end EnhancedInputValidator

def OrderRequest.fields (req : OrderRequest) : List String := [req.clientID, req.symbol, req.side]

def suspicious (u : Unicode) (inputs : List String) : Nat :=
  inputs.countP fun input => detectSuspiciousPatterns u input ≠ []

/-- The number of suspicious fields in a sequence of requests. -/
def suspiciousFields (u : Unicode) (reqs : List OrderRequest) : Nat :=
  suspicious u (reqs.flatMap OrderRequest.fields)

/-- No field has five patterns, and the suspicious fields, if there are any
and they are logged, are fewer than the attempts that lead to a block. -/
def Harmless (u : Unicode) (config : SecurityConfig) (reqs : List OrderRequest) : Prop :=
  (∀ req ∈ reqs, ∀ input ∈ req.fields, (detectSuspiciousPatterns u input).length < 5)
    ∧ (config.enableLogging = true → suspiciousFields u reqs = 0
      ∨ (suspiciousFields u reqs : Int) < config.blockAfterAttempts)

namespace EnhancedInputValidator

theorem length_recorded {config : SecurityConfig} (henabled : config.enableLogging = true)
    (u : Unicode) (fields : List (String × Clock)) :
    (recorded u config fields).length = suspicious u (fields.map Prod.fst) := by
  rw [recorded, if_pos henabled, List.length_map, ← List.countP_eq_length_filter, suspicious,
    List.countP_map, Function.comp_def]

theorem free_recorded_iff (u : Unicode) (config : SecurityConfig)
    (fields : List (String × Clock)) :
    Free config (recorded u config fields)
      ↔ (config.enableLogging = true → suspicious u (fields.map Prod.fst) = 0
        ∨ (suspicious u (fields.map Prod.fst) : Int) < config.blockAfterAttempts) := by
  by_cases henabled : config.enableLogging = true
  · rw [Free, ← List.length_eq_zero_iff, length_recorded henabled]
    exact ⟨fun h _ => h, fun h => h henabled⟩
  · have hnil : recorded u config fields = [] := if_neg henabled
    exact iff_of_true (Or.inl hnil) fun h => absurd h henabled

theorem harmless_iff (u : Unicode) (config : SecurityConfig)
    (reqs : List (OrderRequest × RequestClock)) :
    Harmless u config (reqs.map Prod.fst)
      ↔ (∀ field ∈ reqs.flatMap fieldsOf, (detectSuspiciousPatterns u field.1).length < 5)
        ∧ Free config (recorded u config (reqs.flatMap fieldsOf)) := by
  have hfields : (reqs.map Prod.fst).flatMap OrderRequest.fields
      = (reqs.flatMap fieldsOf).map Prod.fst := by
    rw [List.flatMap_map, List.map_flatMap]
    rfl
  rw [free_recorded_iff, ← hfields, Harmless, suspiciousFields]
  refine and_congr_left' ?_
  rw [← List.forall_mem_flatMap, hfields, List.forall_mem_map]

theorem run_accepts (eiv : EnhancedInputValidator) {reqs : List (OrderRequest × RequestClock)}
    (hnew : eiv.activityLogger.Knows source [])
    (hvalid : ∀ r ∈ reqs, eiv.validator.validateOrderRequest eiv.unicode r.1 = []) :
    (Harmless eiv.unicode eiv.activityLogger.config (reqs.map Prod.fst) →
      ∀ err ∈ eiv.run source reqs, err = none)
      ∧ ∀ start, (∀ r ∈ reqs, ∀ field ∈ fieldsOf r,
          Within eiv.activityLogger.config start field.2) →
        (∀ err ∈ eiv.run source reqs, err = none) →
          Harmless eiv.unicode eiv.activityLogger.config (reqs.map Prod.fst) := by
  rw [run_none_iff hvalid, harmless_iff]
  refine ⟨fun h => checks_of_free hnew h.1 h.2, fun start hwithin hnone => ?_⟩
  exact free_of_checks hnew (Or.inl rfl) nofun (List.forall_mem_flatMap.mpr hwithin) hnone

end EnhancedInputValidator

/-- **What the guards accept.** Requests of a source that are valid on their
own are all accepted if they are harmless; and if they all are within the
reset duration, then only harmless ones are. -/
theorem guards_accept {u : Unicode} {config : Option ValidationConfig}
    {secConfig : Option SecurityConfig} {source : String}
    {reqs : List (OrderRequest × RequestClock)}
    (hvalid : ∀ r ∈ reqs, (newInputValidator config).validateOrderRequest u r.1 = []) :
    let sec := secConfig.getD defaultSecurityConfig
    (Harmless u sec (reqs.map Prod.fst) →
      ∀ err ∈ (newEnhancedInputValidator u config secConfig).run source reqs, err = none)
      ∧ ∀ start, (∀ r ∈ reqs, ∀ field ∈ EnhancedInputValidator.fieldsOf r,
          EnhancedInputValidator.Within sec start field.2) →
        (∀ err ∈ (newEnhancedInputValidator u config secConfig).run source reqs, err = none) →
          Harmless u sec (reqs.map Prod.fst) :=
  (newEnhancedInputValidator u config secConfig).run_accepts rfl hvalid

/-! ## ASCII -/

def IsASCII (s : List Char) : Prop := ∀ c ∈ s, c.toNat < 128

instance decidableIsASCII (s : List Char) : Decidable (IsASCII s) :=
  List.decidableBAll (fun c : Char => c.toNat < 128) s

section

variable {s : List Char} {input : String}

theorem map_toUpper_ascii (u : Unicode) (h : IsASCII s) : s.map u.toUpper = s.map Char.toUpper :=
  List.map_congr_left fun c hc => u.toUpper_ascii c (h c hc)

theorem map_toLower_ascii (u : Unicode) (h : IsASCII s) : s.map u.toLower = s.map Char.toLower :=
  List.map_congr_left fun c hc => u.toLower_ascii c (h c hc)

theorem sqlPatterns_ascii : ∀ pattern ∈ sqlPatterns, IsASCII pattern.toList := by
  decide

/-- The patterns in an ASCII input do not depend on the tables. -/
theorem detectSuspiciousPatterns_ascii (u u' : Unicode) (h : IsASCII input.toList) :
    detectSuspiciousPatterns u input = detectSuspiciousPatterns u' input := by
  have hsql : matched "SQL_INJECTION:" (input.toList.map Char.toUpper) (·.toList.map u.toUpper)
      sqlPatterns = matched "SQL_INJECTION:" (input.toList.map Char.toUpper)
        (·.toList.map u'.toUpper) sqlPatterns := by
    unfold matched
    congr 1
    refine List.filter_congr fun pattern hpattern => ?_
    have hascii := sqlPatterns_ascii pattern hpattern
    exact congrArg (contains _)
      ((map_toUpper_ascii u hascii).trans (map_toUpper_ascii u' hascii).symm)
  have hspecial : (input.toList.countP fun r =>
      !u.isLetter r && !u.isDigit r && r != '_' && r != '-')
        = input.toList.countP fun r => !u'.isLetter r && !u'.isDigit r && r != '_' && r != '-' := by
    refine List.countP_congr fun r hr => ?_
    rw [u.isLetter_ascii r (h r hr), u.isDigit_ascii r (h r hr), u'.isLetter_ascii r (h r hr),
      u'.isDigit_ascii r (h r hr)]
  unfold detectSuspiciousPatterns
  dsimp only
  rw [map_toUpper_ascii u h, map_toUpper_ascii u' h, map_toLower_ascii u h, map_toLower_ascii u' h,
    hsql, hspecial]

theorem suspicious_ascii (u : Unicode) {inputs : List String}
    (h : ∀ input ∈ inputs, IsASCII input.toList) :
    suspicious u inputs = suspicious .ascii inputs := by
  refine List.countP_congr fun input hinput => ?_
  rw [detectSuspiciousPatterns_ascii u .ascii (h input hinput)]

end

def updateBot : OrderRequest := ⟨"UPDATE_bot", "BTCUSD", "buy", .finite 100, .finite 1⟩

def tick : RequestClock := ⟨⟨0, 0, 0, 0⟩, ⟨0, 0, 0, 0⟩, ⟨0, 0, 0, 0⟩⟩

theorem updateBot_valid (u : Unicode) :
    (newInputValidator none).validateOrderRequest u updateBot = [] := by
  have hside : InputValidator.validateSide u "buy" = none := by
    have htrim : trimSpace "buy".toList = "buy".toList := by decide
    rw [InputValidator.validateSide, htrim, map_toLower_ascii u (by decide)]
    decide
  exact InputValidator.validateOrderRequest_eq_nil.mpr
    ⟨by decide, by decide, hside, by decide +kernel, by decide +kernel⟩

theorem updateBot_patterns :
    updateBot.fields.map (fun input => (detectSuspiciousPatterns .ascii input).length) =
      [1, 0, 0] := by
  decide +kernel

/-- Each of its requests has one suspicious field, whatever the rest of `unicode` does. -/
theorem suspiciousFields_updateBot (u : Unicode) (n : ℕ) :
    suspiciousFields u (List.replicate n updateBot) = n := by
  have hone : suspicious u updateBot.fields = 1 := by
    have hcount : suspicious .ascii updateBot.fields = [1, 0, 0].countP fun k : ℕ => k ≠ 0 := by
      rw [← updateBot_patterns, List.countP_map, suspicious]
      refine List.countP_congr fun input _ => ?_
      simp
    rw [suspicious_ascii u (by decide), hcount]
    rfl
  induction n with
  | zero => rfl
  | succ n ih =>
      rw [suspiciousFields, List.replicate_succ, List.flatMap_cons, suspicious,
        List.countP_append, Nat.add_comm]
      exact congrArg₂ (· + ·) ih hone

/-- Four of its requests are accepted. -/
theorem guards_accept_four : ((newEnhancedInputValidator .ascii none none).run "10.0.0.1"
    (List.replicate 4 (updateBot, tick))).all Option.isNone = true := by
  have hfew : ∀ input ∈ updateBot.fields,
      (detectSuspiciousPatterns .ascii input).length < 5 := by
    have hall : ∀ k ∈ [1, 0, 0], k < 5 := by decide
    rw [← updateBot_patterns] at hall
    exact List.forall_mem_map.mp hall
  have hharmless : Harmless .ascii defaultSecurityConfig
      ((List.replicate 4 (updateBot, tick)).map Prod.fst) := by
    rw [List.map_replicate]
    refine ⟨fun req hreq => ?_, fun _ => Or.inr ?_⟩
    · rw [List.eq_of_mem_replicate hreq]
      exact hfew
    · rw [suspiciousFields_updateBot]
      decide
  have hvalid : ∀ r ∈ List.replicate 4 (updateBot, tick),
      (newInputValidator none).validateOrderRequest .ascii r.1 = [] := fun r hr => by
    rw [List.eq_of_mem_replicate hr]
    exact updateBot_valid .ascii
  have hnone : ∀ err ∈ (newEnhancedInputValidator .ascii none none).run "10.0.0.1"
      (List.replicate 4 (updateBot, tick)), err = none := (guards_accept hvalid).1 hharmless
  refine List.all_eq_true.mpr fun err herr => ?_
  rw [hnone err herr]
  rfl

/-- Five are too many, from any source: every one of them counts as an
attempt. -/
theorem updateBot_blocked (u : Unicode) (source : String) :
    ¬∀ err ∈ (newEnhancedInputValidator u none none).run source
        (List.replicate 5 (updateBot, tick)), err = none := by
  intro hall
  have hvalid : ∀ r ∈ List.replicate 5 (updateBot, tick),
      (newInputValidator none).validateOrderRequest u r.1 = [] := fun r hr => by
    rw [List.eq_of_mem_replicate hr]
    exact updateBot_valid u
  have hwithin : ∀ r ∈ List.replicate 5 (updateBot, tick),
      ∀ field ∈ EnhancedInputValidator.fieldsOf r,
        EnhancedInputValidator.Within defaultSecurityConfig 0 field.2 := by
    decide
  have hharmless : Harmless u defaultSecurityConfig _ :=
    ((newEnhancedInputValidator u none none).run_accepts rfl hvalid).2 0 hwithin hall
  have hbelow := hharmless.2 rfl
  rw [List.map_replicate, suspiciousFields_updateBot] at hbelow
  rcases hbelow with hzero | hbelow
  · cases hzero
  · exact absurd hbelow (by decide)

theorem update_bot_refused :
    (newInputValidator none).validateOrderRequest .ascii updateBot = []
      ∧ ¬∀ err ∈ (newEnhancedInputValidator .ascii none none).run "10.0.0.1"
          (List.replicate 5 (updateBot, tick)), err = none :=
  ⟨updateBot_valid .ascii, updateBot_blocked .ascii "10.0.0.1"⟩

end TradingBackend.Validation
