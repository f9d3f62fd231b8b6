import MyGenSvr.Ports.IniLookup
import MyGenSvr.Ports.ReadConfig
import MyGenSvr.Ports.Startup

/-!
# From the configuration to the pool

`main` reads the configuration, lets itself past `run_single` and makes as many reactors as
`THREAD_NUM` says.  The strings of the configuration are copied whatever their length, and
inside the struct they may run over what lies behind their arrays; but `strcpy` writes upwards
only, and all numbers that lie there are assigned later.  A copy that leaves the struct is a
fault.

## Main results

* `numbers_own` — the numbers are the configured ones, whatever the strings.
* `main_builds_configured_pool` — the text of the file and the number of reactors.
-/

namespace MyGenSvr.Ports

open MyGenSvr.Verified.Buffer
open MyGenSvr.Verified.ByteOrder
open MyGenSvr.Verified.Transition

/-! ## Numbers -/

/-- A number, not an array. -/
def Member.isNumber : Member → Bool
  | .str _ _ => false
  | .num _ _ => true

/-- No value assigned to the member changes the `n` bytes at `o`. -/
def Member.Clears (o n : Nat) (m : Member) : Prop :=
  o + n ≤ m.offset ∨ (m.isNumber = true ∧ m.offset + m.size ≤ o)

instance (o n : Nat) (m : Member) : Decidable (m.Clears o n) := by
  unfold Member.Clears
  infer_instance

section Numbers

variable {h : Host} {f : IniFile} {keys : List ConfigKey} {g g' strTmp : List UInt8}

theorem Member.assign_clear {m : Member} {o n : Nat} (hassign : m.assign h strTmp g = some g')
    (hclear : m.Clears o n) : window g' o n = window g o n := by
  rcases hclear with hbelow | ⟨hnumber, habove⟩
  · obtain ⟨hin, rfl⟩ := assign_some hassign
    exact window_splice_below hin hbelow
  · cases m with
    | str offset size => exact absurd hnumber (by simp [isNumber])
    | num offset kind => exact assign_window hassign trivial (Or.inr habove)

/-- A run of assignments that clear some bytes leaves them alone. -/
theorem readKeys_clear {o n : Nat} (hrun : readKeys h f keys g = some (0, g'))
    (hclear : ∀ c ∈ keys, c.member.Clears o n) : window g' o n = window g o n := by
  induction keys generalizing g with
  | nil => rw [(Prod.mk.inj (Option.some.inj hrun)).2]
  | cons c keys ih =>
      obtain ⟨g₁, hassign, hrun⟩ := readKeys_cons hrun
      rw [ih hrun fun d hd => hclear d (List.mem_cons_of_mem c hd)]
      exact Member.assign_clear hassign (hclear c List.mem_cons_self)

/-- **Numbers that later assignments clear** are held, whatever values came in between. -/
theorem readKeys_numbers (hrun : readKeys h f keys g = some (0, g'))
    (hclear : keys.Pairwise fun c c' => c.member.isNumber = true →
      c'.member.Clears c.member.offset c.member.size) :
    ∀ c ∈ keys, c.member.isNumber = true → c.member.Holds h (c.value f) g' := by
  induction keys generalizing g with
  | nil => exact fun c hc => absurd hc List.not_mem_nil
  | cons c keys ih =>
      obtain ⟨g₁, hassign, hrest⟩ := readKeys_cons hrun
      obtain ⟨hahead, hpairs⟩ := List.pairwise_cons.mp hclear
      intro d hd hnumber
      rcases List.mem_cons.mp hd with rfl | hd
      · have hkept := readKeys_clear hrest fun e he => hahead e he hnumber
        have hfit : d.member.Fits (d.value f) := by
          cases hm : d.member with
          | str offset size =>
              rw [hm] at hnumber
              exact absurd hnumber (by simp [Member.isNumber])
          | num offset kind => exact trivial
        exact (Member.holds_congr hkept).mpr (Member.assign_holds hassign hfit)
      · exact ih hrest hpairs d hd hnumber

/-- A run that ends well has found every key. -/
theorem readKeys_found (hrun : readKeys h f keys g = some (0, g')) :
    ∀ c ∈ keys, f.read c.segment c.key = (0, c.value f) := by
  induction keys generalizing g with
  | nil => exact fun c hc => absurd hc List.not_mem_nil
  | cons c keys ih =>
      obtain ⟨g₁, -, hrest⟩ := readKeys_cons hrun
      intro d hd
      rcases List.mem_cons.mp hd with rfl | hd
      · rw [readKeys] at hrun
        split at hrun
        · have hfail : (-1 : Int) = 0 := congrArg Prod.fst (Option.some.inj hrun)
          exact absurd hfail (by decide)
        · next hfound => exact Prod.ext (not_not.mp hfound) rfl
      · exact ih hrest d hd

end Numbers

section Config

variable {h : Host} {g_iniFile f : IniFile} {config_file : Option (List UInt8)}
  {g_sysParam g' : List UInt8}

/-- All numbers of the configuration. -/
theorem readConfig_numbers
    (hrun : ReadConfig h g_iniFile config_file g_sysParam = some (0, f, g')) :
    ∀ c ∈ configKeys, c.member.isNumber = true → c.member.Holds h (c.value f) g' :=
  readKeys_numbers (readKeys_of_readConfig hrun) (by decide +kernel)

/-- **The numbers are the configured ones.**  When `ReadConfig` returns 0 and its copies
have stayed in the struct, every number there is the `atoi` value of its own key, converted
to its type, whatever the two strings overwrote. -/
theorem numbers_own (h : Host) (g_iniFile f : IniFile) (config_file : Option (List UInt8))
    (g' : List UInt8)
    (hrun : ReadConfig h g_iniFile config_file stSystemParam.init = some (0, f, g')) :
    ∀ c ∈ configKeys, c.member.isNumber = true →
      f.read c.segment c.key = (0, c.value f) ∧ c.member.Holds h (c.value f) g' := by
  intro c hc hnumber
  exact ⟨readKeys_found (readKeys_of_readConfig hrun) c hc, readConfig_numbers hrun c hc hnumber⟩

/-- A directory of 200 bytes, which runs over every number. -/
theorem numbers_own_long_log_dir : ∃ f g',
    ReadConfig Host.x86_64 {} (some (configText (List.replicate 200 (ch 'a'))))
      stSystemParam.init = some (0, f, g') ∧
    ∀ c ∈ configKeys, c.member.isNumber = true → c.member.Holds Host.x86_64 (c.value f) g' := by
  have hrun : configRun (List.replicate 200 (ch 'a')) =
      some (0, List.replicate 200 (ch 'a'), bytes "127.0.0.1") := by
    decide +kernel
  obtain ⟨f, g', hconfig, -, -⟩ := exists_of_configRun hrun
  exact ⟨f, g', hconfig, fun c hc hnumber =>
    (numbers_own Host.x86_64 {} f _ g' hconfig c hc hnumber).2⟩

end Config

/-! ## `main` -/

/-- `g_sysParam.thread_num`. -/
def threadNum (h : Host) (g_sysParam : List UInt8) : Int :=
  (Scalar.ofBits .int32 (h.endian.value
    (window g_sysParam stSystemParam.thread_num.offset stSystemParam.thread_num.size))).toInt

/-- `main`, up to the first system call of `LiteReactorPool::Init`: the contents of the file
`argv[1]`, if it can be opened, and what `run_single` returns.  `none` is an exception that
nobody catches, or a copy that leaves `g_sysParam`. -/
def mainInit (h : Host) (config_file : Option (List UInt8)) (iRet : Int)
    (openFds : Finset Int) : Option Startup :=
  match ReadConfig h {} config_file stSystemParam.init with
  | none => none
  | some (ret, _, g_sysParam) =>
      if ret ≠ 0 ∨ iRet ≠ 0 then some ⟨0, [], .exited 1, openFds, [], false, [], false⟩
      else some (.start (threadNum h g_sysParam) openFds)

/-- The runs of `main` up to its main loop. -/
def program (h : Host) (ctlMayFail : Bool) (config_file : Option (List UInt8)) (iRet : Int)
    (openFds : Finset Int) : System Startup StartEvent where
  init s := mainInit h config_file iRet openFds = some s
  step s ev s' := StartEnabled ctlMayFail s ev ∧ s.next ev = some s'

section Main

variable {h : Host} {ctlMayFail : Bool} {iRet : Int} {openFds : Finset Int} {s : Startup}

/-- A run of the program is one of the startup, for a size it has read or for none. -/
theorem program_starts {config_file : Option (List UInt8)}
    (hs : (program h ctlMayFail config_file iRet openFds).Reachable s) :
    (startup ctlMayFail 0 openFds).Reachable s ∨ (iRet = 0 ∧ ∃ f g',
      ReadConfig h {} config_file stSystemParam.init = some (0, f, g') ∧
        (startup ctlMayFail (threadNum h g') openFds).Reachable s) := by
  obtain ⟨s₀, es, hinit, hrun⟩ := hs
  have hsame : ∀ iSize, (startup ctlMayFail iSize openFds).Run s₀ es s := by
    intro iSize
    have hstep : ∀ s e t, (program h ctlMayFail config_file iRet openFds).step s e t →
        (startup ctlMayFail iSize openFds).step s e t := fun _ _ _ hst => hst
    exact hrun.mono hstep
  change mainInit h config_file iRet openFds = some s₀ at hinit
  rw [mainInit] at hinit
  split at hinit
  · cases hinit
  · next ret f g' hconfig =>
      by_cases hfails : ret ≠ 0 ∨ iRet ≠ 0
      · rw [if_pos hfails, Option.some.injEq] at hinit
        exact Or.inl ⟨s₀, es, hinit.symm, hsame 0⟩
      · rw [if_neg hfails, Option.some.injEq] at hinit
        rw [not_or, not_not, not_not] at hfails
        obtain ⟨rfl, hzero⟩ := hfails
        exact Or.inr ⟨hzero, f, g', hconfig, s₀, es, hinit.symm, hsame _⟩

/-- A number of the struct, as `int`. -/
theorem toInt_ofInt {n : Int} (hlow : -2 ^ 31 ≤ n) (hhigh : n < 2 ^ 31) :
    Int32.toInt (Scalar.ofInt .int32 n) = n := by
  have hbits : (UInt32.ofNat (n % 2 ^ 64).toNat).toInt32.toInt = n := by
    rw [← Int32.toInt_toBitVec]
    show (BitVec.ofNat 32 (n % 2 ^ 64).toNat).toInt = n
    rw [BitVec.toInt_ofNat', Int.bmod]
    omega
  exact hbits

theorem atoi_range (h : Host) (s : List UInt8) : -2 ^ 31 ≤ atoi h s ∧ atoi h s < 2 ^ 31 := by
  rw [atoi, toInt32]
  split <;> omega

/-- The key of the pool size. -/
def threadNumKey : ConfigKey := ⟨bytes "misc", bytes "THREAD_NUM", stSystemParam.thread_num⟩

/-- The pool size that is read. -/
theorem threadNum_eq {g_iniFile f : IniFile} {config_file : Option (List UInt8)}
    {g_sysParam g' : List UInt8}
    (hrun : ReadConfig h g_iniFile config_file g_sysParam = some (0, f, g')) :
    threadNum h g' = atoi h (cstr (threadNumKey.value f)) := by
  have hheld := readConfig_numbers hrun threadNumKey (by simp [configKeys, threadNumKey]) rfl
  obtain ⟨hlow, hhigh⟩ := atoi_range h (cstr (threadNumKey.value f))
  have hint := congrArg Int32.toInt hheld
  exact hint.trans (toInt_ofInt hlow hhigh)

/-- The value that a file has for a key. -/
theorem value_of_readConfig {file : IniText} (hfit : file.Fits) {f : IniFile}
    {g_sysParam g' : List UInt8}
    (hrun : ReadConfig h {} (some file.content) g_sysParam = some (0, f, g')) {c : ConfigKey}
    (hc : c ∈ configKeys) :
    (valuesUnder (cstr c.segment) (cstr c.key) none file.lines).getLast? =
      some (c.value f) := by
  have hfound := readKeys_found (readKeys_of_readConfig hrun) c hc
  obtain ⟨opened, g, hopen, hread⟩ := readsLast_of_fits hfit
  have hmap : f = g := by
    obtain ⟨⟨opened', f'⟩, hopen', hrun⟩ := Option.bind_eq_some_iff.mp hrun
    obtain ⟨rfl, rfl⟩ := Prod.mk.inj (Option.some.inj (hopen'.symm.trans hopen))
    cases opened' with
    | false =>
        have hfail : (-1 : Int) = 0 := congrArg Prod.fst (Option.some.inj hrun)
        exact absurd hfail (by decide)
    | true =>
        obtain ⟨zeroed, -, hrun⟩ := Option.bind_eq_some_iff.mp hrun
        obtain ⟨r, -, hrun⟩ := Option.bind_eq_some_iff.mp hrun
        exact (congrArg (fun r => r.2.1) (Option.some.inj hrun)).symm
  rw [hmap, hread] at hfound
  rw [hmap]
  cases hlast : (valuesUnder (cstr c.segment) (cstr c.key) none file.lines).getLast? with
  | none =>
      rw [hlast] at hfound
      have hfail : (-1 : Int) = 0 := congrArg Prod.fst hfound
      exact absurd hfail (by decide)
  | some V =>
      rw [hlast] at hfound
      exact congrArg some (congrArg Prod.snd hfound)

/-- **The text and the pool.**  If the program gets to its main loop on a configuration
file of section lines, key lines and others, `run_single` has let it past, the file has a
`THREAD_NUM` under `[misc]`, the last one stands for a number from 1 to 150, and there are
that many reactors. -/
theorem main_builds_configured_pool (h : Host) (ctlMayFail : Bool) (file : IniText)
    (hfit : file.Fits) (iRet : Int) (openFds : Finset Int) (s : Startup)
    (hs : (program h ctlMayFail (some file.content) iRet openFds).Reachable s)
    (epollFd lsfd : Int) (hloop : s.pc = .loop epollFd lsfd) :
    iRet = 0 ∧ ∃ V,
      (valuesUnder (bytes "misc") (bytes "THREAD_NUM") none file.lines).getLast? = some V ∧
      (s.vecLiteReactor.length : Int) = atoi h (cstr V) ∧ 1 ≤ s.vecLiteReactor.length ∧
      s.vecLiteReactor.length ≤ 150 := by
  have hsize : ∀ iSize, (startup ctlMayFail iSize openFds).Reachable s →
      (s.vecLiteReactor.length : Int) = iSize ∧ 0 < iSize ∧ iSize ≤ 150 := by
    intro iSize hreach
    obtain ⟨-, hcounted, -⟩ := startup_invariant hreach
    have hcounts := hcounted.counts
    rw [hloop] at hcounts
    have hlength : (s.vecLiteReactor.length : Int) = s.iPoolSize := hcounts
    obtain ⟨hsize, hpos, hmax⟩ := hcounted.size.resolve_left (by rw [hloop]; simp)
    exact ⟨hlength.trans hsize, hpos, hmax⟩
  rcases program_starts hs with hrefused | ⟨hzero, f, g', hconfig, hstarted⟩
  · exact absurd (hsize 0 hrefused).2.1 (Int.lt_irrefl 0)
  · obtain ⟨hlength, hpos, hmax⟩ := hsize _ hstarted
    have hvalue := value_of_readConfig hfit hconfig
      (show threadNumKey ∈ configKeys by simp [configKeys, threadNumKey])
    have hsegment : cstr threadNumKey.segment = bytes "misc" := by decide
    have hkey : cstr threadNumKey.key = bytes "THREAD_NUM" := by decide
    rw [hsegment, hkey] at hvalue
    exact ⟨hzero, _, hvalue, hlength.trans (threadNum_eq hconfig), by omega, by omega⟩

end Main

/-! ## A configuration -/

instance instDecidablePlain (s : List UInt8) : Decidable (Plain s) :=
  inferInstanceAs (Decidable (∀ c ∈ bytes "[]*\r\n", c ∉ s))

/-- A capital letter or an underscore. -/
def isCapital (c : UInt8) : Bool := (decide (65 ≤ c) && decide (c ≤ 90)) || c == 95

/-- A key of capital letters. -/
def capitalKey (text : List UInt8) (hne : text ≠ []) (hall : ∀ c ∈ text, isCapital c = true) :
    KeyName where
  text := text
  trimmed := by
    have hblank : ∀ c, isCapital c = true → isBlank c = false := by decide +kernel
    exact ⟨hne, hblank _ (hall _ (List.head_mem hne)), hblank _ (hall _ (List.getLast_mem hne))⟩
  plain := by
    intro c hc hmem
    have hother : ∀ c ∈ bytes "[]*\r\n", isCapital c = false := by decide +kernel
    have hfalse := hother c hc
    rw [hall c hmem] at hfalse
    exact absurd hfalse (by decide)
  no_equals := by
    intro hmem
    exact absurd (hall _ hmem) (by decide)

/-- The line of a key with the value `1`. -/
def oneLine (text : List UInt8) (hne : text ≠ []) (hall : ∀ c ∈ text, isCapital c = true) :
    IniLine × LineEnd :=
  (.entry ⟨noBlanks, capitalKey text hne hall, noBlanks, noBlanks,
    ⟨bytes "1", ⟨by decide, by decide, by decide⟩, by decide +kernel, by decide⟩, noBlanks⟩, .lf)

/-- The line of a section. -/
def sectLine (text : List UInt8) (hne : text ≠ []) (hplain : Plain text) : IniLine × LineEnd :=
  (.sect ⟨text, hne, hplain⟩, .lf)

/-- A configuration with one for every number. -/
def allOnes : IniText where
  ended :=
    [ sectLine (bytes "logger") (by decide) (by decide +kernel)
    , oneLine (bytes "LOG_DIR_PATH") (by decide) (by decide +kernel)
    , oneLine (bytes "LOG_MAX_SIZE") (by decide) (by decide +kernel)
    , oneLine (bytes "LOG_MAX_NUM") (by decide) (by decide +kernel)
    , oneLine (bytes "LOG_PRIORITY") (by decide) (by decide +kernel)
    , sectLine (bytes "misc") (by decide) (by decide +kernel)
    , oneLine (bytes "SOCKET_TIMEOUT") (by decide) (by decide +kernel)
    , oneLine (bytes "CONNECT_LIMIT") (by decide) (by decide +kernel)
    , oneLine (bytes "SOCKET_BUFSIZE") (by decide) (by decide +kernel)
    , oneLine (bytes "THREAD_NUM") (by decide) (by decide +kernel)
    , oneLine (bytes "ACCEPT_BACKLOG") (by decide) (by decide +kernel)
    , sectLine (bytes "PORT_OUT") (by decide) (by decide +kernel)
    , oneLine (bytes "IP") (by decide) (by decide +kernel)
    , oneLine (bytes "PORT") (by decide) (by decide +kernel) ]
  last := none

/-- A run of the program that gets to its main loop with one reactor. -/
theorem allOnes_ready :
    (program Host.x86_64 false (some allOnes.content) 0 {0, 1, 2}).Reachable .ready := by
  have hinit : mainInit Host.x86_64 (some allOnes.content) 0 {0, 1, 2} =
      some (.start 1 {0, 1, 2}) := by decide +kernel
  obtain ⟨s₀, es, hstart, hrun⟩ := startup_ready
  have hstep : ∀ s e t, (startup false 1 {0, 1, 2}).step s e t →
      (program Host.x86_64 false (some allOnes.content) 0 {0, 1, 2}).step s e t :=
    fun _ _ _ hst => hst
  have hstart' : s₀ = .start 1 {0, 1, 2} := hstart
  exact ⟨s₀, es, hstart' ▸ hinit, hrun.mono hstep⟩

theorem allOnes_fits : allOnes.Fits := by
  have hsections : ∀ l ∈ allOnes.taken,
      (match l.1 with | .sect S => decide S.Fits | _ => true) = true := by decide +kernel
  have hunder : ∀ x ∈ allOnes.under, x.sect.Fits ∧ x.entry.Fits x.lineEnd := by decide +kernel
  exact IniText.fits_of_lengths (fun S e hmem => of_decide_eq_true (hsections _ hmem)) hunder

/-- One reactor is made for it. -/
theorem main_builds_configured_pool_one :
    ∃ V, (valuesUnder (bytes "misc") (bytes "THREAD_NUM") none allOnes.lines).getLast? = some V ∧
      (Startup.ready.vecLiteReactor.length : Int) = atoi Host.x86_64 (cstr V) := by
  obtain ⟨-, V, hvalue, hlength, -⟩ := main_builds_configured_pool Host.x86_64 false allOnes
    allOnes_fits 0 {0, 1, 2} .ready allOnes_ready 8 9 rfl
  exact ⟨V, hvalue, hlength⟩

end MyGenSvr.Ports
