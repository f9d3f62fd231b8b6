import MyGenSvr.Ports.IniFile
import MyGenSvr.Verified.Buffer

/-!
# The configuration

`ReadConfig` fills `g_sysParam` from the values of an INI file, one key after the
other.  The two arrays are filled by `strcpy`, which copies a value of any length; the
struct is its bytes here, with the memory behind it, so that a longer one runs into the
members behind the array, and a copy past that memory is a fault.

## Main results

* `config_own_iff` — every member has its own value, and the two that no key sets are
  zero, exactly when the two strings fit their arrays.
* `long_log_dir` — a `LOG_DIR_PATH` of 128 bytes is left without its terminator.
-/

namespace MyGenSvr.Ports

open MyGenSvr.Verified.Buffer
open MyGenSvr.Verified.ByteOrder

/-! ## `atoi` -/

def isSpace (c : UInt8) : Bool := c == 32 || (decide (9 ≤ c) && decide (c ≤ 13))

def isDigit (c : UInt8) : Bool := decide (ch '0' ≤ c) && decide (c ≤ ch '9')

/-- The number that the digits in front denote. -/
def leadingNumber (s : List UInt8) : Nat :=
  (s.takeWhile isDigit).foldl (fun n c => 10 * n + (c.toNat - (ch '0').toNat)) 0

/-- `strtol` to base ten, with a `long` as wide as `size_t`: what does not fit is
replaced by the nearest value. -/
def strtol (h : Host) (s : List UInt8) : Int :=
  let s := s.dropWhile isSpace
  let bound : Int := 2 ^ (h.sizeBits - 1)
  if s.head? = some (ch '-') then max (-bound) (-leadingNumber s.tail)
  else if s.head? = some (ch '+') then min (bound - 1) (leadingNumber s.tail)
  else min (bound - 1) (leadingNumber s)

/-- `atoi`, which casts it to `int`. -/
def atoi (h : Host) (s : List UInt8) : Int := toInt32 (strtol h s)

/-- The conversion of an integer to a scalar type. -/
def Scalar.ofInt (k : Scalar) (n : Int) : k.Val := k.ofBits (n % 2 ^ 64).toNat

/-! ## `stSystemParam` -/

/-- A member of the struct: a `char` array or a number. -/
inductive Member
  | str (offset size : Nat)
  | num (offset : Nat) (kind : Scalar)

def Member.offset : Member → Nat
  | .str offset _ => offset
  | .num offset _ => offset

def Member.size : Member → Nat
  | .str _ size => size
  | .num _ kind => kind.width

namespace stSystemParam

/-! Each member at the next multiple of its alignment. -/

def log_dir : Member := .str 0 128
def log_prename : Member := .str 128 32
def log_size : Member := .num 160 .int32
def log_num : Member := .num 164 .int32
def log_priority : Member := .num 168 .int16
def socket_timeout : Member := .num 172 .int32
def socket_bufsize : Member := .num 176 .int32
def backlog : Member := .num 180 .int32
def ip_connect_limit : Member := .num 184 .int32
def thread_num : Member := .num 188 .int32
def ip : Member := .str 192 16
def port : Member := .num 208 .uInt16
def type : Member := .num 212 .int32
def size : Nat := 216

end stSystemParam

/-- The assignment of a value: `strcpy` to an array, whatever its size, and the
converted `atoi` value to a number; `none` where it leaves the memory. -/
def Member.assign (h : Host) : Member → List UInt8 → List UInt8 → Option (List UInt8)
  | .str offset _, strTmp, g => store g offset (cstr strTmp ++ [0])
  | .num offset kind, strTmp, g =>
      store g offset
        (h.endian.image kind.width (kind.bits (kind.ofInt (atoi h (cstr strTmp)))))

/-- The string in an array, if it is terminated there. -/
def stringIn (array : List UInt8) : Option (List UInt8) :=
  if 0 ∈ array then some (cstr array) else none

/-- The member has the value as its own: as a terminated string inside the array, or
as its `atoi` value converted to the type. -/
def Member.Holds (h : Host) : Member → List UInt8 → List UInt8 → Prop
  | .str offset size, strTmp, g => stringIn (window g offset size) = some strTmp
  | .num offset kind, strTmp, g =>
      kind.ofBits (h.endian.value (window g offset kind.width)) =
        kind.ofInt (atoi h (cstr strTmp))

/-! ## `ReadConfig` -/

/-- A key, and the member it sets. -/
structure ConfigKey where
  segment : List UInt8
  key : List UInt8
  member : Member

/-- The assignments, in their order. -/
def configKeys : List ConfigKey :=
  [ ⟨bytes "logger", bytes "LOG_DIR_PATH", stSystemParam.log_dir⟩
  , ⟨bytes "logger", bytes "LOG_MAX_SIZE", stSystemParam.log_size⟩
  , ⟨bytes "logger", bytes "LOG_MAX_NUM", stSystemParam.log_num⟩
  , ⟨bytes "logger", bytes "LOG_PRIORITY", stSystemParam.log_priority⟩
  , ⟨bytes "misc", bytes "SOCKET_TIMEOUT", stSystemParam.socket_timeout⟩
  , ⟨bytes "misc", bytes "CONNECT_LIMIT", stSystemParam.ip_connect_limit⟩
  , ⟨bytes "misc", bytes "SOCKET_BUFSIZE", stSystemParam.socket_bufsize⟩
  , ⟨bytes "misc", bytes "THREAD_NUM", stSystemParam.thread_num⟩
  , ⟨bytes "misc", bytes "ACCEPT_BACKLOG", stSystemParam.backlog⟩
  , ⟨bytes "PORT_OUT", bytes "IP", stSystemParam.ip⟩
  , ⟨bytes "PORT_OUT", bytes "PORT", stSystemParam.port⟩ ]

/-- `INIFILE_READ` and the assignment behind it, key by key: the first key that is not
there ends with -1. -/
def readKeys (h : Host) (g_iniFile : IniFile) :
    List ConfigKey → List UInt8 → Option (Int × List UInt8)
  | [], g => some (0, g)
  | c :: keys, g =>
      let r := g_iniFile.read c.segment c.key
      if r.1 ≠ 0 then some (-1, g)
      else (c.member.assign h r.2 g).bind (readKeys h g_iniFile keys)

/-- `ReadConfig`: its result, `g_iniFile` and the memory from `g_sysParam` on; `none` when
`std::out_of_range` leaves it, or a copy leaves that memory. -/
def ReadConfig (h : Host) (g_iniFile : IniFile) (config_file : Option (List UInt8))
    (g_sysParam : List UInt8) : Option (Int × IniFile × List UInt8) := do
  match ← g_iniFile.do_open config_file with
  | (false, f) => return (-1, f, g_sysParam)
  | (true, f) =>
      let zeroed ← store g_sysParam 0 (List.replicate stSystemParam.size 0)
      let r ← readKeys h f configKeys zeroed
      return (r.1, f, r.2)

/-- The value of a key. -/
def ConfigKey.value (c : ConfigKey) (f : IniFile) : List UInt8 := (f.read c.segment c.key).2

/-- Each key's value is in its own member, and the members without a key are zero. -/
structure OwnFields (h : Host) (f : IniFile) (g : List UInt8) : Prop where
  held : ∀ c ∈ configKeys, c.member.Holds h (c.value f) g
  log_prename : window g stSystemParam.log_prename.offset stSystemParam.log_prename.size =
    List.replicate stSystemParam.log_prename.size 0
  type : window g stSystemParam.type.offset stSystemParam.type.size =
    List.replicate stSystemParam.type.size 0

/-- The value fits an array with its terminator, and has none of its own. -/
def FitsArray (value : List UInt8) (size : Nat) : Prop := value.length < size ∧ 0 ∉ value

/-- What an assignment needs to stay in its member. -/
def Member.Fits : Member → List UInt8 → Prop
  | .str _ size, strTmp => FitsArray strTmp size
  | .num _ _, _ => True

/-! ## One assignment -/

section Assign

variable {h : Host} {m : Member} {strTmp g g' : List UInt8} {o n : Nat}

theorem cstr_append_zero (hnul : 0 ∉ strTmp) (rest : List UInt8) :
    cstr (strTmp ++ 0 :: rest) = strTmp := by
  have hall : ∀ c ∈ strTmp, decide (c ≠ 0) = true := by
    intro c hc
    exact decide_eq_true fun hzero => hnul (hzero ▸ hc)
  rw [cstr, List.takeWhile_append_of_pos hall]
  simp

theorem cstr_eq_self (hnul : 0 ∉ strTmp) : cstr strTmp = strTmp := by
  rw [cstr, List.takeWhile_eq_self_iff]
  intro c hc
  exact decide_eq_true fun hzero => hnul (hzero ▸ hc)

/-- An array holds what fits it, and nothing else. -/
theorem fitsArray_of_stringIn {array value : List UInt8} (hstr : stringIn array = some value) :
    FitsArray value array.length := by
  rw [stringIn] at hstr
  split at hstr
  · rename_i hzero
    obtain rfl := Option.some.inj hstr
    refine ⟨strlen_lt_of_mem hzero, ?_⟩
    intro hmem
    have hne := List.mem_takeWhile_imp hmem
    exact absurd hne (by decide)
  · exact absurd hstr (by simp)

/-- What is assigned. -/
def Member.image (h : Host) : Member → List UInt8 → List UInt8
  | .str _ _, strTmp => cstr strTmp ++ [0]
  | .num _ kind, strTmp => h.endian.image kind.width (kind.bits (kind.ofInt (atoi h (cstr strTmp))))

theorem Member.assign_eq : m.assign h strTmp g = store g m.offset (m.image h strTmp) := by
  cases m <;> rfl

/-- An assignment that stays in the memory. -/
theorem Member.assign_some (hassign : m.assign h strTmp g = some g') :
    m.offset ≤ g.length ∧ g' = splice g m.offset (m.image h strTmp) := by
  rw [assign_eq, store, Option.ite_none_right_eq_some] at hassign
  obtain ⟨hin, heq⟩ := hassign
  exact ⟨by omega, (Option.some.inj heq).symm⟩

theorem Member.image_length (hfit : m.Fits strTmp) : (m.image h strTmp).length ≤ m.size := by
  cases m with
  | str offset size =>
      obtain ⟨hlen, hnul⟩ := hfit
      rw [image, cstr_eq_self hnul, List.length_append]
      exact hlen
  | num offset kind => exact le_of_eq (Endian.image_length _ _ _)

/-- A value that fits leaves everything else alone. -/
theorem Member.assign_window (hassign : m.assign h strTmp g = some g') (hfit : m.Fits strTmp)
    (hapart : o + n ≤ m.offset ∨ m.offset + m.size ≤ o) : window g' o n = window g o n := by
  obtain ⟨hin, rfl⟩ := assign_some hassign
  have hlen := Member.image_length (h := h) hfit
  rcases hapart with hbelow | habove
  · exact window_splice_below hin hbelow
  · exact window_splice_above hin (by omega)

/-- A value that fits is held. -/
theorem Member.assign_holds (hassign : m.assign h strTmp g = some g') (hfit : m.Fits strTmp) :
    m.Holds h strTmp g' := by
  obtain ⟨hin, heq⟩ := assign_some hassign
  have hwindow := window_splice_prefix hin (Member.image_length (h := h) hfit)
  rw [← heq] at hwindow
  cases m with
  | str offset size =>
      obtain ⟨-, hnul⟩ := hfit
      have harray : window g' offset size =
          (strTmp ++ [0]) ++ window g (offset + (strTmp ++ [0]).length)
            (size - (strTmp ++ [0]).length) := by
        simpa [Member.image, Member.offset, Member.size, cstr_eq_self hnul] using hwindow
      rw [Holds, harray, stringIn, if_pos (by simp), List.append_assoc, List.singleton_append,
        cstr_append_zero hnul]
  | num offset kind =>
      have hbytes : window g' offset kind.width =
          h.endian.image kind.width (kind.bits (kind.ofInt (atoi h (cstr strTmp)))) := by
        simpa [Member.image, Member.offset, Member.size, window] using hwindow
      rw [Holds, hbytes, Endian.value_image, Nat.mod_eq_of_lt (kind.bits_lt _), kind.ofBits_bits]

/-- What a member holds is in its own bytes. -/
theorem Member.holds_congr (hsame : window g' m.offset m.size = window g m.offset m.size) :
    m.Holds h strTmp g' ↔ m.Holds h strTmp g := by
  cases m with
  | str offset size =>
      have harray : window g' offset size = window g offset size := hsame
      rw [Holds, Holds, harray]
  | num offset kind =>
      have hbytes : window g' offset kind.width = window g offset kind.width := hsame
      rw [Holds, Holds, hbytes]

end Assign

/-! ## All assignments -/

section Run

variable {h : Host} {f : IniFile} {keys : List ConfigKey} {g g' : List UInt8} {o n : Nat}

/-- The members do not overlap. -/
def Member.Apart (m m' : Member) : Prop :=
  m'.offset + m'.size ≤ m.offset ∨ m.offset + m.size ≤ m'.offset

instance (m m' : Member) : Decidable (m.Apart m') := inferInstanceAs (Decidable (_ ∨ _))

/-- The first step of a run that comes to its end. -/
theorem readKeys_cons {c : ConfigKey} (hrun : readKeys h f (c :: keys) g = some (0, g')) :
    ∃ g₁, c.member.assign h (c.value f) g = some g₁ ∧ readKeys h f keys g₁ = some (0, g') := by
  rw [readKeys] at hrun
  split at hrun
  · have hfail : (-1 : Int) = 0 := congrArg Prod.fst (Option.some.inj hrun)
    exact absurd hfail (by decide)
  · exact Option.bind_eq_some_iff.mp hrun

/-- A run of assignments with values that fit changes their members alone. -/
theorem readKeys_window (hrun : readKeys h f keys g = some (0, g'))
    (hfit : ∀ c ∈ keys, c.member.Fits (c.value f))
    (hapart : ∀ c ∈ keys, o + n ≤ c.member.offset ∨ c.member.offset + c.member.size ≤ o) :
    window g' o n = window g o n := by
  induction keys generalizing g with
  | nil => rw [(Prod.mk.inj (Option.some.inj hrun)).2]
  | cons c keys ih =>
      obtain ⟨g₁, hassign, hrun⟩ := readKeys_cons hrun
      have hrest := ih hrun (fun d hd => hfit d (List.mem_cons_of_mem c hd))
        (fun d hd => hapart d (List.mem_cons_of_mem c hd))
      rw [hrest]
      exact Member.assign_window hassign (hfit c List.mem_cons_self) (hapart c List.mem_cons_self)

/-- **A run of assignments** to members apart from each other, with values that fit,
leaves each value in its member. -/
theorem readKeys_holds (hrun : readKeys h f keys g = some (0, g'))
    (hfit : ∀ c ∈ keys, c.member.Fits (c.value f))
    (hapart : keys.Pairwise fun c c' => c.member.Apart c'.member) :
    ∀ c ∈ keys, c.member.Holds h (c.value f) g' := by
  induction keys generalizing g with
  | nil => exact fun c hc => absurd hc List.not_mem_nil
  | cons c keys ih =>
      obtain ⟨g₁, hassign, hrest⟩ := readKeys_cons hrun
      have hfits : ∀ d ∈ keys, d.member.Fits (d.value f) :=
        fun d hd => hfit d (List.mem_cons_of_mem c hd)
      obtain ⟨hahead, hpairs⟩ := List.pairwise_cons.mp hapart
      intro d hd
      rcases List.mem_cons.mp hd with rfl | hd
      -- Nothing after the assignment reaches its member.
      · have hkept := readKeys_window hrest hfits
          (o := d.member.offset) (n := d.member.size) (fun e he => (hahead e he).symm)
        exact (Member.holds_congr hkept).mpr
          (Member.assign_holds hassign (hfit d List.mem_cons_self))
      · exact ih hrest hfits hpairs d hd

end Run

/-! ## The struct -/

section Config

variable {h : Host} {g_iniFile f : IniFile} {config_file : Option (List UInt8)}
  {g_sysParam g' : List UInt8}

/-- A run of `ReadConfig` that returns 0 goes through all keys from a zeroed struct. -/
theorem readKeys_of_readConfig
    (hrun : ReadConfig h g_iniFile config_file g_sysParam = some (0, f, g')) :
    readKeys h f configKeys (splice g_sysParam 0 (List.replicate stSystemParam.size 0)) =
      some (0, g') := by
  obtain ⟨⟨opened, f'⟩, -, hrun⟩ := Option.bind_eq_some_iff.mp hrun
  cases opened with
  | false =>
      have hfail : (-1 : Int) = 0 := congrArg Prod.fst (Option.some.inj hrun)
      exact absurd hfail (by decide)
  | true =>
      obtain ⟨zeroed, hzeroed, hrun⟩ := Option.bind_eq_some_iff.mp hrun
      obtain ⟨⟨ret, g⟩, hkeys, hrun⟩ := Option.bind_eq_some_iff.mp hrun
      obtain ⟨rfl, hrest⟩ := Prod.mk.inj (Option.some.inj hrun)
      obtain ⟨rfl, rfl⟩ := Prod.mk.inj hrest
      rw [store, Option.ite_none_right_eq_some] at hzeroed
      rw [Option.some.inj hzeroed.2]
      exact hkeys

/-- The zeroed struct. -/
theorem window_zeroed {o n : Nat} (hin : o + n ≤ stSystemParam.size) :
    window (splice g_sysParam 0 (List.replicate stSystemParam.size 0)) o n =
      List.replicate n 0 := by
  have hdrop : o ≤ (List.replicate stSystemParam.size (0 : UInt8)).length := by
    rw [List.length_replicate]
    omega
  rw [window, splice_zero, List.drop_append_of_le_length hdrop, List.drop_replicate,
    List.take_append_of_le_length (by rw [List.length_replicate]; omega), List.take_replicate,
    Nat.min_eq_left (by omega)]

/-- An array that holds a value has room for it. -/
theorem fitsArray_of_holds {offset size : Nat} {value : List UInt8}
    (hheld : Member.Holds h (.str offset size) value g') : FitsArray value size := by
  obtain ⟨hlen, hnul⟩ := fitsArray_of_stringIn hheld
  refine ⟨?_, hnul⟩
  rw [window, List.length_take] at hlen
  omega

/-- The keys of the two strings. -/
def logDirPath : ConfigKey := ⟨bytes "logger", bytes "LOG_DIR_PATH", stSystemParam.log_dir⟩

def portOutIP : ConfigKey := ⟨bytes "PORT_OUT", bytes "IP", stSystemParam.ip⟩

/-- **The configuration** is read into its own members exactly when the two strings fit
their arrays. -/
theorem config_own_iff
    (hrun : ReadConfig h g_iniFile config_file g_sysParam = some (0, f, g')) :
    OwnFields h f g' ↔ FitsArray (logDirPath.value f) 128 ∧ FitsArray (portOutIP.value f) 16 := by
  constructor
  · intro hown
    exact ⟨fitsArray_of_holds (hown.held logDirPath (by simp [configKeys, logDirPath])),
      fitsArray_of_holds (hown.held portOutIP (by simp [configKeys, portOutIP]))⟩
  · rintro ⟨hdir, hip⟩
    have hkeys := readKeys_of_readConfig hrun
    have hfit : ∀ c ∈ configKeys, c.member.Fits (c.value f) := by
      simp only [configKeys, List.forall_mem_cons]
      exact ⟨hdir, trivial, trivial, trivial, trivial, trivial, trivial, trivial, trivial, hip,
        trivial, fun c hc => absurd hc List.not_mem_nil⟩
    refine ⟨readKeys_holds hkeys hfit (by decide +kernel), ?_, ?_⟩
    · rw [readKeys_window hkeys hfit (by decide +kernel)]
      exact window_zeroed (by decide)
    · rw [readKeys_window hkeys hfit (by decide +kernel)]
      exact window_zeroed (by decide)

/-- A configuration file, but for the directory. -/
def configText (log_dir : List UInt8) : List UInt8 :=
  bytes "[logger]\nLOG_DIR_PATH=" ++ log_dir ++
    bytes "\nLOG_MAX_SIZE=100\nLOG_MAX_NUM=5\nLOG_PRIORITY=3\n" ++
    bytes "[misc]\nSOCKET_TIMEOUT=30\nCONNECT_LIMIT=8\nSOCKET_BUFSIZE=4096\n" ++
    bytes "THREAD_NUM=4\nACCEPT_BACKLOG=128\n[PORT_OUT]\nIP=127.0.0.1\nPORT=8000\n"

/-- The struct of a program that has just been started. -/
def stSystemParam.init : List UInt8 := List.replicate stSystemParam.size 0

/-- What `ReadConfig` returns for it, and the two strings that it reads. -/
def configRun (log_dir : List UInt8) : Option (Int × List UInt8 × List UInt8) :=
  (ReadConfig Host.x86_64 {} (some (configText log_dir)) stSystemParam.init).map fun r =>
    (r.1, logDirPath.value r.2.1, portOutIP.value r.2.1)

theorem exists_of_configRun {log_dir dir ip : List UInt8}
    (hrun : configRun log_dir = some (0, dir, ip)) : ∃ f g',
      ReadConfig Host.x86_64 {} (some (configText log_dir)) stSystemParam.init = some (0, f, g') ∧
        logDirPath.value f = dir ∧ portOutIP.value f = ip := by
  obtain ⟨⟨ret, f, g'⟩, hconfig, heq⟩ := Option.map_eq_some_iff.mp hrun
  obtain ⟨rfl, hrest⟩ := Prod.mk.inj heq
  obtain ⟨hdir, hip⟩ := Prod.mk.inj hrest
  exact ⟨f, g', hconfig, hdir, hip⟩

theorem config_own_short : ∃ f g',
    ReadConfig Host.x86_64 {} (some (configText (bytes "/var/log"))) stSystemParam.init =
      some (0, f, g') ∧ OwnFields Host.x86_64 f g' := by
  have hrun : configRun (bytes "/var/log") = some (0, bytes "/var/log", bytes "127.0.0.1") := by
    decide +kernel
  obtain ⟨f, g', hconfig, hdir, hip⟩ := exists_of_configRun hrun
  refine ⟨f, g', hconfig, (config_own_iff hconfig).mpr ?_⟩
  rw [hdir, hip]
  exact ⟨⟨by decide, by decide +kernel⟩, ⟨by decide, by decide +kernel⟩⟩

/-- **A long directory** leaves no terminator in `log_dir`. -/
theorem long_log_dir : ∃ f g',
    ReadConfig Host.x86_64 {} (some (configText (List.replicate 128 (ch 'a'))))
      stSystemParam.init = some (0, f, g') ∧ ¬ OwnFields Host.x86_64 f g' := by
  have hrun : configRun (List.replicate 128 (ch 'a')) =
      some (0, List.replicate 128 (ch 'a'), bytes "127.0.0.1") := by
    decide +kernel
  obtain ⟨f, g', hconfig, hdir, -⟩ := exists_of_configRun hrun
  refine ⟨f, g', hconfig, ?_⟩
  intro hown
  have hheld := hown.held logDirPath (by simp [configKeys, logDirPath])
  rw [hdir] at hheld
  have hlen := (fitsArray_of_holds hheld).1
  rw [List.length_replicate] at hlen
  omega

end Config

end MyGenSvr.Ports
