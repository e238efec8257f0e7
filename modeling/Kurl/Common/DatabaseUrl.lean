import Kurl.DateText
import Kurl.Lib.Separators
import Mathlib.Data.List.DropRight

/-!
# Kurl — the database URL (`common/src/config`)

`DatabaseConfig` is rendered to the URL that `connect_postgres` passes on, by putting `:`, `@`, `:`
and `/` between its fields as they are. `validate` refuses blank fields and the port zero and
nothing else, so the fields may contain the separators themselves.

`Unambiguous` says of a configuration that none of its separators could stand elsewhere. That is
enough for the URL to determine it (`eq_of_display_eq`): two cuts of one URL are compared from the
third separator to the first. And it is necessary (`unambiguous_of_determined`): a separator that
could stand elsewhere gives another configuration with the same URL.

`url_determines_iff` is the equivalence over all accepted configurations. The URL is compared as
text; how a server would read one with such fields in it is not asked.
-/

namespace Kurl

open Lib

structure ConfigError where
  message : String
  deriving DecidableEq

structure DatabaseConfig where
  host : String
  port : UInt16
  user : String
  password : String
  dbName : String
  deriving DecidableEq

/-! ## Validation (`validation.rs`) -/

def invalid (field message : String) : ConfigError :=
  ⟨"invalid configuration `" ++ field ++ "`: " ++ message⟩

/-- `str::trim` -/
def trim (text : List Char) : List Char :=
  (text.dropWhile NaiveDate.isWhitespace).rdropWhile NaiveDate.isWhitespace

def requireNonBlank (value field : String) : Except ConfigError Unit :=
  if (trim value.toList).isEmpty then .error (invalid field "must not be blank") else .ok ()

def requirePort (port : UInt16) (field : String) : Except ConfigError Unit :=
  if port = 0 then .error (invalid field "must be greater than zero") else .ok ()

namespace DatabaseConfig

def validate (config : DatabaseConfig) : Except ConfigError Unit := do
  requireNonBlank config.host "database.host"
  requirePort config.port "database.port"
  requireNonBlank config.user "database.user"
  requireNonBlank config.dbName "database.db_name"

/-- `Display`, which `to_string` renders. -/
def display (config : DatabaseConfig) : String :=
  "postgresql://" ++ config.user ++ ":" ++ config.password ++ "@" ++ config.host ++ ":" ++
    toString config.port.toNat ++ "/" ++ config.dbName

end DatabaseConfig

/-! ## Accepted configurations -/

/-- Only white space. -/
def Blank (text : List Char) : Prop := ∀ c ∈ text, NaiveDate.isWhitespace c = true

theorem Blank.left {a b : List Char} (h : Blank (a ++ b)) : Blank a := fun c hc =>
  h c (List.mem_append_left b hc)

theorem Blank.tail {c : Char} {a : List Char} (h : Blank (c :: a)) : Blank a := fun c' hc =>
  h c' (List.mem_cons_of_mem c hc)

theorem Blank.right {a b : List Char} (h : Blank (a ++ b)) : Blank b := fun c hc =>
  h c (List.mem_append_right a hc)

theorem trim_isEmpty_iff {text : List Char} : (trim text).isEmpty = true ↔ Blank text := by
  unfold trim Blank
  rw [List.isEmpty_iff, List.rdropWhile_eq_nil_iff]
  constructor
  · intro h
    by_contra hnot
    -- a character that is kept by the first cut is no white space, and is not cut by the second
    have hne : text.dropWhile NaiveDate.isWhitespace ≠ [] := by
      rw [Ne, List.dropWhile_eq_nil_iff]
      exact hnot
    have hhead := List.head_dropWhile_not NaiveDate.isWhitespace hne
    rw [h _ (List.head_mem hne)] at hhead
    cases hhead
  · intro h c hc
    exact h c ((List.dropWhile_sublist _).mem hc)

theorem requireNonBlank_ok_iff {value field : String} :
    requireNonBlank value field = .ok () ↔ ¬ Blank value.toList := by
  unfold requireNonBlank
  rw [← trim_isEmpty_iff]
  split <;> simp_all

theorem requirePort_ok_iff {port : UInt16} {field : String} :
    requirePort port field = .ok () ↔ port ≠ 0 := by
  unfold requirePort
  split <;> simp_all

/-- What `validate` accepts. -/
structure DatabaseConfig.Accepted (config : DatabaseConfig) : Prop where
  host : ¬ Blank config.host.toList
  port : config.port ≠ 0
  user : ¬ Blank config.user.toList
  dbName : ¬ Blank config.dbName.toList

theorem bind_ok_iff {ε : Type} {x y : Except ε Unit} :
    (do x; y) = .ok () ↔ x = .ok () ∧ y = .ok () := by
  cases x with
  | error e => exact ⟨fun h => (by cases h), fun h => (by cases h.1)⟩
  | ok u => exact ⟨fun h => ⟨rfl, h⟩, fun h => h.2⟩

theorem DatabaseConfig.validate_ok_iff {config : DatabaseConfig} :
    config.validate = .ok () ↔ config.Accepted := by
  unfold validate
  rw [bind_ok_iff, bind_ok_iff, bind_ok_iff, requireNonBlank_ok_iff, requirePort_ok_iff,
    requireNonBlank_ok_iff, requireNonBlank_ok_iff]
  exact ⟨fun ⟨h, hport, huser, hname⟩ => ⟨h, hport, huser, hname⟩,
    fun h => ⟨h.host, h.port, h.user, h.dbName⟩⟩

/-! ## The URL -/

/-- The digits of a port. -/
def portDigits (port : UInt16) : List Char := Nat.toDigits 10 port.toNat

theorem isDigit_portDigits {port : UInt16} : ∀ c ∈ portDigits port, c.isDigit = true :=
  isDigit_toDigits

theorem portDigits_inj {port port' : UInt16} (h : portDigits port = portDigits port') :
    port = port' := by
  have hnat := congrArg (fun digits => Nat.ofDigitChars 10 digits 0) h
  simp only [portDigits, Nat.ofDigitChars_ten_toDigits] at hnat
  exact UInt16.toNat_inj.mp hnat

/-- What stands before the port, and what stands after its colon. -/
def authority (user password host : List Char) : List Char :=
  user ++ ':' :: (password ++ '@' :: host)

def target (port : UInt16) (dbName : List Char) : List Char := portDigits port ++ '/' :: dbName

/-- The URL without its scheme. -/
def urlText (user password host : List Char) (port : UInt16) (dbName : List Char) : List Char :=
  authority user password host ++ ':' :: target port dbName

namespace DatabaseConfig

def text (config : DatabaseConfig) : List Char :=
  urlText config.user.toList config.password.toList config.host.toList config.port
    config.dbName.toList

theorem toList_display (config : DatabaseConfig) :
    config.display.toList = "postgresql://".toList ++ config.text := by
  have hport : (toString config.port.toNat).toList = portDigits config.port :=
    String.toList_ofList
  unfold display text urlText authority target
  simp only [String.toList_append, hport, List.append_assoc, List.cons_append]
  rfl

theorem display_eq_iff {config config' : DatabaseConfig} :
    config'.display = config.display ↔ config'.text = config.text := by
  rw [← String.toList_inj, toList_display, toList_display, List.append_cancel_left_eq]

/-- No separator could stand elsewhere: what is left of a field by a separator inside it would be
blank, and the password has none. -/
structure Unambiguous (config : DatabaseConfig) : Prop where
  passwordColon : ':' ∉ config.password.toList
  passwordAt : '@' ∉ config.password.toList
  user : ∀ x y, config.user.toList = x ++ ':' :: y → Blank x
  host : ∀ x y, config.host.toList = x ++ '@' :: y → Blank y
  hostPort : ∀ x port y, port ≠ 0 → config.host.toList = x ++ ':' :: target port y → Blank x
  dbName : ∀ x port y, port ≠ 0 → config.dbName.toList = x ++ ':' :: target port y → Blank y

/-! ## A URL with one reading -/

section Cuts

variable {u u' pw pw' h h' d d' : List Char} {p p' : UInt16}

/-- The same port and the same name after it. -/
theorem target_inj (heq : target p d = target p' d') : p = p' ∧ d = d' := by
  have hslash : ¬ Char.isDigit '/' = true := by decide
  obtain ⟨hport, -, hname⟩ :=
    run_append_cons_inj isDigit_portDigits isDigit_portDigits hslash hslash heq
  exact ⟨portDigits_inj hport, hname⟩

/-- A colon behind the one before the port is one in the name. -/
theorem target_eq_append_cons {m t : List Char} (heq : target p d = m ++ ':' :: t) :
    ∃ k, m = target p k ∧ d = k ++ ':' :: t := by
  rcases append_cons_cases heq with ⟨-, hchar, -⟩ | ⟨k, hm, hd⟩ | ⟨k, hport, -⟩
  · exact absurd hchar (by decide)
  · exact ⟨k, hm, hd⟩
  · -- the digits of the port have no colon
    have hdigit := @isDigit_portDigits p ':' (by rw [hport]; simp)
    exact absurd hdigit (by decide)

/-- A user, a password and a host that are cut from one authority. -/
theorem authority_inj (hpc : ':' ∉ pw) (hpa : '@' ∉ pw)
    (hu : ∀ x y, u = x ++ ':' :: y → Blank x) (hh : ∀ x y, h = x ++ '@' :: y → Blank y)
    (hu' : ¬ Blank u') (hh' : ¬ Blank h')
    (heq : authority u pw h = authority u' pw' h') : u = u' ∧ pw = pw' ∧ h = h' := by
  rcases append_cons_cases heq with ⟨rfl, -, hrest⟩ | ⟨m, rfl, hrest⟩ | ⟨m, hm, -⟩
  · rcases append_cons_cases hrest with ⟨rfl, -, rfl⟩ | ⟨k, rfl, hk⟩ | ⟨k, rfl, -⟩
    · exact ⟨rfl, rfl, rfl⟩
    · -- the at sign of the other one is in this host
      exact absurd (hh k h' hk) hh'
    · exact absurd (by simp) hpa
  · -- the first colon of the other one is in what follows this user
    rcases append_cons_cases hrest with ⟨-, hchar, -⟩ | ⟨k, -, hk⟩ | ⟨k, rfl, -⟩
    · exact absurd hchar (by decide)
    · have hblank : Blank h' := by
        refine (hh (k ++ ':' :: pw') h' ?_)
        rw [hk, List.append_assoc, List.cons_append]
      exact absurd hblank hh'
    · exact absurd (by simp) hpc
  · exact absurd (hu u' m hm) hu'

end Cuts

/-- **The URL of an unambiguous configuration determines it.** -/
theorem eq_of_display_eq {config config' : DatabaseConfig} (hone : config.Unambiguous)
    (haccepted : config'.Accepted) (heq : config'.display = config.display) : config' = config := by
  obtain ⟨h, p, u, pw, d⟩ := config
  obtain ⟨h', p', u', pw', d'⟩ := config'
  have htext : urlText u.toList pw.toList h.toList p d.toList =
      urlText u'.toList pw'.toList h'.toList p' d'.toList := (display_eq_iff.mp heq).symm
  rcases append_cons_cases htext with ⟨hauth, -, htarget⟩ | ⟨m, -, hm⟩ | ⟨m, hm, htarget⟩
  · obtain ⟨rfl, hd⟩ := target_inj htarget
    obtain ⟨hu, hpw, hh⟩ := authority_inj hone.passwordColon hone.passwordAt hone.user hone.host
      haccepted.user haccepted.host hauth
    obtain rfl := String.toList_inj.mp hd
    obtain rfl := String.toList_inj.mp hu
    obtain rfl := String.toList_inj.mp hpw
    obtain rfl := String.toList_inj.mp hh
    rfl
  · -- the port of the other one is in this name
    obtain ⟨k, rfl, hk⟩ := target_eq_append_cons hm
    exact absurd (hone.dbName k p' d'.toList haccepted.port hk) haccepted.dbName
  · -- the port of the other one is in this authority, and so it is in this host
    obtain ⟨k, rfl, -⟩ := target_eq_append_cons htarget
    have hauth : authority u.toList pw.toList h.toList =
        authority u'.toList pw'.toList (h'.toList ++ ':' :: target p' k) := by
      rw [hm]
      simp [authority]
    obtain ⟨-, -, hhost⟩ := authority_inj hone.passwordColon hone.passwordAt hone.user hone.host
      haccepted.user (fun hblank => haccepted.host hblank.left) hauth
    exact absurd (hone.hostPort h'.toList p' k haccepted.port hhost) haccepted.host

/-- So a decoder recovers every accepted configuration that is unambiguous. -/
theorem exists_decoder : ∃ decode : String → Option DatabaseConfig,
    ∀ config : DatabaseConfig, config.Accepted → config.Unambiguous →
      decode config.display = some config := by
  classical
  refine ⟨fun url => if h : ∃ config : DatabaseConfig, config.Accepted ∧ config.Unambiguous ∧
    config.display = url then some h.choose else none, fun config haccepted hone => ?_⟩
  have hex : ∃ config' : DatabaseConfig, config'.Accepted ∧ config'.Unambiguous ∧
      config'.display = config.display := ⟨config, haccepted, hone, rfl⟩
  refine (dif_pos hex).trans (congrArg some ?_)
  exact eq_of_display_eq hone hex.choose_spec.1 hex.choose_spec.2.2

/-! ## A separator that could stand elsewhere -/

/-- Only one accepted configuration has the URL. -/
def Determined (config : DatabaseConfig) : Prop :=
  ∀ config' : DatabaseConfig, config'.Accepted → config'.display = config.display →
    config' = config

section Moves

variable {config : DatabaseConfig}

/-- **A separator that is moved**: other fields with the same text, the accepted ones of which are
not blank, are those of the configuration. -/
theorem Determined.eq_of_text (hdetermined : config.Determined) (u pw h : List Char) (p : UInt16)
    (d : List Char) (hu : ¬ Blank u) (hh : ¬ Blank h) (hp : p ≠ 0) (hd : ¬ Blank d)
    (heq : urlText u pw h p d = config.text) :
    u = config.user.toList ∧ pw = config.password.toList ∧ h = config.host.toList ∧
      d = config.dbName.toList := by
  have haccepted : DatabaseConfig.Accepted
      ⟨String.ofList h, p, String.ofList u, String.ofList pw, String.ofList d⟩ := by
    constructor
    case host => simpa using hh
    case port => exact hp
    case user => simpa using hu
    case dbName => simpa using hd
  have hconfig := hdetermined _ haccepted (display_eq_iff.mpr (by simpa [text] using heq))
  rw [← hconfig]
  simp

theorem unambiguous_of_determined (haccepted : config.Accepted) (hdetermined : config.Determined) :
    config.Unambiguous := by
  have hself : ∀ {x y : List Char} {c : Char}, x = x ++ c :: y → False := by
    intro x y c heq
    have hlength := congrArg List.length heq
    simp at hlength
  constructor
  case passwordColon =>
    intro hmem
    obtain ⟨x, y, hpw⟩ := List.append_of_mem hmem
    -- the user goes on as far as the colon in the password
    have hmoved := hdetermined.eq_of_text (config.user.toList ++ ':' :: x) y config.host.toList
      config.port config.dbName.toList (fun hblank => haccepted.user hblank.left) haccepted.host
      haccepted.port haccepted.dbName (by simp [text, urlText, authority, hpw])
    exact hself hmoved.1.symm
  case passwordAt =>
    intro hmem
    obtain ⟨x, y, hpw⟩ := List.append_of_mem hmem
    -- the password ends at its at sign
    have hmoved := hdetermined.eq_of_text config.user.toList x (y ++ '@' :: config.host.toList)
      config.port config.dbName.toList haccepted.user
      (fun hblank => haccepted.host hblank.right.tail) haccepted.port haccepted.dbName
      (by simp [text, urlText, authority, hpw])
    exact hself (hmoved.2.1.trans hpw)
  case user =>
    intro x y hu
    by_contra hblank
    have hmoved := hdetermined.eq_of_text x (y ++ ':' :: config.password.toList)
      config.host.toList config.port config.dbName.toList hblank haccepted.host haccepted.port
      haccepted.dbName (by simp [text, urlText, authority, hu])
    exact hself (hmoved.1.trans hu)
  case host =>
    intro x y hh
    by_contra hblank
    have hmoved := hdetermined.eq_of_text config.user.toList (config.password.toList ++ '@' :: x) y
      config.port config.dbName.toList haccepted.user hblank haccepted.port haccepted.dbName
      (by simp [text, urlText, authority, hh])
    exact hself hmoved.2.1.symm
  case hostPort =>
    intro x port y hp hh
    by_contra hblank
    -- the name begins behind the port in the host
    have hmoved := hdetermined.eq_of_text config.user.toList config.password.toList x port
      (y ++ ':' :: target config.port config.dbName.toList) haccepted.user hblank hp
      (fun hblank => haccepted.dbName hblank.right.tail.right.tail)
      (by simp [text, urlText, authority, target, hh])
    exact hself (hmoved.2.2.1.trans hh)
  case dbName =>
    intro x port y hp hd
    by_contra hblank
    -- the host goes on as far as the port in the name
    have hmoved := hdetermined.eq_of_text config.user.toList config.password.toList
      (config.host.toList ++ ':' :: target config.port x) port y haccepted.user
      (fun hblank => haccepted.host hblank.left) hp hblank
      (by simp [text, urlText, authority, target, hd])
    exact hself hmoved.2.2.1.symm

end Moves

/-- **Which configurations their URL determines**: among all that `validate` accepts, exactly those
whose separators could not stand elsewhere. -/
theorem url_determines_iff {config : DatabaseConfig} (haccepted : config.validate = .ok ()) :
    (∀ config' : DatabaseConfig, config'.validate = .ok () →
      config'.display = config.display → config' = config) ↔ config.Unambiguous := by
  rw [validate_ok_iff] at haccepted
  simp only [validate_ok_iff]
  exact ⟨unambiguous_of_determined haccepted, fun hone _ => eq_of_display_eq hone⟩

end DatabaseConfig

/-- A colon in the user, and the same colon in the password. -/
def colonInUser : DatabaseConfig := ⟨"localhost", 5432, "a:b", "c", "kurlyk"⟩

def colonInPassword : DatabaseConfig := ⟨"localhost", 5432, "a", "b:c", "kurlyk"⟩

theorem url_undetermined_colonInUser :
    colonInUser.validate = .ok () ∧ colonInPassword.validate = .ok () ∧
      colonInUser.display = colonInPassword.display ∧ colonInUser ≠ colonInPassword := by
  refine ⟨?_, ?_, ?_, ?_⟩ <;> decide

theorem url_determines_iff_colonInUser : ¬ ∀ config' : DatabaseConfig,
    config'.validate = .ok () → config'.display = colonInUser.display → config' = colonInUser := by
  rw [DatabaseConfig.url_determines_iff (by decide)]
  intro hone
  have hblank := hone.user ['a'] ['b'] (by decide)
  exact absurd (hblank 'a' (by simp)) (by decide)

end Kurl
