import Mathlib.Tactic.IntervalCases
import RocketMQClient.Js.Number

namespace RocketMQClient.Script

open Js Library

def rhelMapArray : List String :=
  ["Centos", "Red Hat Linux", "RHEL", "Scientific Linux", "ScientificSL", "ScientificCERNSLC",
    "ScientificFermiLTS", "ScientificSLF"]

def normalMapArray : List String :=
  ["Alpine Linux", "Amazon Linux", "Arch Linux", "Chakra", "Debian", "elementary OS", "IYCC",
    "Linux Mint", "Manjaro Linux", "Ubuntu Linux"]

inductive Rejection
  | assertion (message : Option String)
  | getos (err : String)
  deriving DecidableEq

structure Route where
  route : String
  warning : Option String := none
  deriving DecidableEq

def major (release : Option String) : Option JsNumber :=
  match release with
  | none => none
  | some release =>
    if release = "" then none
    else some (JsNumber.ofString (String.ofList (release.toList.takeWhile (· ≠ '.'))))

/-- `major >= low`; `undefined` converts to `NaN`. -/
def atLeast (major : Option JsNumber) (low : Nat) : Bool :=
  JsNumber.le (.finite low) (major.getD .nan)

def atMost (major : Option JsNumber) (high : Nat) : Bool :=
  JsNumber.le (major.getD .nan) (.finite high)

def template (major : Option JsNumber) : String := (major.map JsNumber.toString).getD "undefined"

def realGetLinuxDistroRoute (dist : String) (release : Option String) : Except Rejection Route :=
  let major := major release
  if dist ∈ rhelMapArray then
    if atLeast major 5 && atMost major 7 then .ok ⟨"RHEL" ++ template major ++ ".x", none⟩
    else .error (.assertion (some ("Only support " ++ dist ++ " 5-7.")))
  else if dist = "Fedora" ∧ atMost major 18 then .ok ⟨"RHEL6.x", none⟩
  else if dist = "Fedora" ∧ major = some (.finite 19) then .ok ⟨"RHEL7.x", none⟩
  else if dist = "Ubuntu Linux" then
    if major ∈ [some (.finite 14), some (.finite 16), some (.finite 18)] then
      .ok ⟨"UBUNTU/" ++ template major ++ ".04", none⟩
    else .error (.assertion none)
  else if dist = "Debian" then
    if atLeast major 8 && atMost major 10 then
      .ok ⟨"UBUNTU/" ++ template (major.map fun n => (n.add (.finite 2)).divBy 2) ++ ".04", none⟩
    else .error (.assertion none)
  else if dist ∈ normalMapArray then .ok ⟨"UBUNTU/14.04", none⟩
  else
    .ok ⟨"UBUNTU/14.04", some ("[rocketmq sdk] [warn] " ++ dist ++
      " may not supported, fallback to use Ubuntu library.")⟩

def getLinuxDistroRoute (os : Except String (String × Option String)) : Except Rejection Route :=
  match os with
  | .error err => .error (.getos err)
  | .ok (dist, release) => realGetLinuxDistroRoute dist release

def knownRoutes : List String :=
  ["RHEL5.x", "RHEL6.x", "RHEL7.x", "UBUNTU/14.04", "UBUNTU/16.04", "UBUNTU/18.04"]

def Between (low high : Nat) (major : Option JsNumber) : Prop :=
  ∃ q, major = some (.finite q) ∧ low ≤ q ∧ q ≤ high

def Integer (major : Option JsNumber) : Prop := ∃ n : Nat, major = some (.finite n)

theorem between_iff {low high : Nat} {major : Option JsNumber} :
    (atLeast major low && atMost major high) = true ↔ Between low high major := by
  unfold atLeast atMost Between
  cases major with
  | none => simp [JsNumber.le]
  | some n =>
    cases n with
    | nan => simp [JsNumber.le]
    | infinity negative => cases negative <;> simp [JsNumber.le]
    | finite q => simp [JsNumber.le]

theorem isDouble_major {release : Option String} {n : JsNumber} (h : major release = some n) :
    n.IsDouble := by
  unfold major at h
  split at h
  · cases h
  · split at h
    · cases h
    · rw [Option.some.injEq] at h
      rw [← h]
      exact JsNumber.isDouble_ofString _

theorem knownRoutes_point {route : String} (h : route ∈ knownRoutes) :
    route.toList.count '.' = 1 := by
  revert route
  decide

theorem knownRoutes_length {route : String} (h : route ∈ knownRoutes) :
    route.toList.length = 7 ∨ route.toList.length = 12 := by
  revert route
  decide

theorem notMem_knownRoutes {front t back : String} (h : '.' ∈ t.toList) (hback : '.' ∈ back.toList) :
    front ++ t ++ back ∉ knownRoutes := by
  intro hmem
  have hcount := knownRoutes_point hmem
  have ht := List.count_pos_iff.mpr h
  have hb := List.count_pos_iff.mpr hback
  simp only [String.toList_append, List.count_append] at hcount
  omega

theorem ofRat_between (low high : Nat) {q : ℚ} (hpos : 0 < low) (hhigh : high < 2 ^ 53)
    (hlow : low ≤ q) (hq : q ≤ high) :
    ∃ y : ℚ, JsNumber.ofRat q = .finite y ∧ low ≤ y ∧ y ≤ high := by
  have hlow0 : (0 : ℚ) < low := by exact_mod_cast hpos
  have hle : low ≤ high := by exact_mod_cast hlow.trans hq
  have hge := Binary64.round_mono hlow0 hlow
  have hlt := Binary64.round_mono (hlow0.trans_le hlow) hq
  rw [Binary64.round_natCast (by omega)] at hge
  rw [Binary64.round_natCast hhigh] at hlt
  have hrange : |Binary64.round q| < 2 ^ 1024 := by
    rw [abs_of_pos (hlow0.trans_le hge)]
    exact hlt.trans_lt (JsNumber.natCast_lt_range hhigh)
  exact ⟨_, if_pos hrange, hge, hlt⟩

theorem Between.rhel_known {m : Option JsNumber} (h : Between 5 7 m) (hint : Integer m) :
    "RHEL" ++ template m ++ ".x" ∈ knownRoutes := by
  obtain ⟨q, hq, hlow, hhigh⟩ := h
  obtain ⟨n, hn⟩ := hint
  have hqn : q = n := by
    rw [hn] at hq
    simpa using hq.symm
  rw [hqn] at hlow hhigh
  have hlow : 5 ≤ n := by exact_mod_cast hlow
  have hhigh : n ≤ 7 := by exact_mod_cast hhigh
  subst hn
  interval_cases n <;> decide +kernel

theorem Between.rhel_unknown {m : Option JsNumber} (h : Between 5 7 m)
    (hdouble : ∀ n, m = some n → n.IsDouble) (hint : ¬ Integer m) :
    "RHEL" ++ template m ++ ".x" ∉ knownRoutes := by
  obtain ⟨q, rfl, hlow, hhigh⟩ := h
  push_cast at hlow hhigh
  obtain ⟨n, -, rfl, -⟩ | hpoint := JsNumber.toString_unit (hdouble _ rfl) (by linarith) (by linarith)
  · exact absurd ⟨n, rfl⟩ hint
  · exact notMem_knownRoutes hpoint (by decide)

/-- Halving the version of a Debian gives a number around five, and no such library is there. -/
theorem Between.debian_unknown {m : Option JsNumber} (h : Between 8 10 m) :
    "UBUNTU/" ++ template (m.map fun n => (n.add (.finite 2)).divBy 2) ++ ".04" ∉ knownRoutes := by
  obtain ⟨q, rfl, hlow, hhigh⟩ := h
  push_cast at hlow hhigh
  obtain ⟨y, hy, hylow, hyhigh⟩ := ofRat_between 10 12 (q := q + 2)
    (by decide) (by decide) (by push_cast; linarith) (by push_cast; linarith)
  push_cast at hylow hyhigh
  obtain ⟨z, hz, hzlow, hzhigh⟩ := ofRat_between 5 6 (q := y / 2)
    (by decide) (by decide) (by push_cast; linarith) (by push_cast; linarith)
  push_cast at hzlow hzhigh
  have htemplate : template (some ((JsNumber.add (.finite q) (.finite 2)).divBy 2)) =
      (JsNumber.finite z).toString := by
    rw [JsNumber.add, hy, JsNumber.divBy, hz]
    rfl
  have hdouble : (JsNumber.finite z).IsDouble := hz ▸ JsNumber.isDouble_ofRat _
  rw [Option.map_some, htemplate]
  obtain ⟨n, -, -, hdigit⟩ | hpoint := JsNumber.toString_unit hdouble (by linarith) (by linarith)
  · intro hmem
    have := knownRoutes_length hmem
    simp [String.toList_append, hdigit] at this
  · exact notMem_knownRoutes hpoint (by decide)

def Slips (dist : String) (release : Option String) : Prop :=
  dist = "Debian" ∧ Between 8 10 (major release) ∨
    dist ∈ rhelMapArray ∧ Between 5 7 (major release) ∧ ¬ Integer (major release)

theorem known_of_not_slips {dist : String} {release : Option String} {route : Route}
    (hslip : ¬ Slips dist release) (h : realGetLinuxDistroRoute dist release = .ok route) :
    route.route ∈ knownRoutes := by
  unfold realGetLinuxDistroRoute at h
  dsimp only at h
  split_ifs at h with hrhel hbetween hold hnew hubuntu hversion hdebian hbetween hnormal <;> cases h
  · refine (between_iff.mp hbetween).rhel_known ?_
    by_contra hint
    exact hslip (.inr ⟨hrhel, between_iff.mp hbetween, hint⟩)
  · decide
  · decide
  · simp only [List.mem_cons, List.not_mem_nil, or_false] at hversion
    obtain hversion | hversion | hversion := hversion <;> rw [hversion] <;> decide +kernel
  · exact absurd (.inl ⟨hdebian, between_iff.mp hbetween⟩) hslip
  · decide
  · simp [knownRoutes]

theorem unknown_of_slips {dist : String} {release : Option String} (h : Slips dist release) :
    ∃ route, realGetLinuxDistroRoute dist release = .ok route ∧ route.route ∉ knownRoutes := by
  obtain ⟨rfl, hbetween⟩ | ⟨hrhel, hbetween, hint⟩ := h
  · refine ⟨⟨_, none⟩, ?_, hbetween.debian_unknown⟩
    unfold realGetLinuxDistroRoute
    dsimp only
    rw [if_neg (by decide), if_neg (by simp), if_neg (by simp), if_neg (by decide), if_pos rfl,
      if_pos (between_iff.mpr hbetween)]
  · refine ⟨⟨_, none⟩, ?_, hbetween.rhel_unknown (fun n hn => isDouble_major hn) hint⟩
    unfold realGetLinuxDistroRoute
    dsimp only
    rw [if_pos hrhel, if_pos (between_iff.mpr hbetween)]

end RocketMQClient.Script
