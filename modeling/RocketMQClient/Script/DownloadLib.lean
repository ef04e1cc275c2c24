import RocketMQClient.Library.Machine
import RocketMQClient.Script.GetLinuxDistroRoute

namespace RocketMQClient.Script

open Library

def registryMirror (env : Option String) : String :=
  let mirror := match env with
    | some mirror =>
      if mirror = "" then "https://opensource-rocketmq-client.oss-cn-hangzhou.aliyuncs.com"
      else mirror
    | none => "https://opensource-rocketmq-client.oss-cn-hangzhou.aliyuncs.com"
  if mirror.toList.getLast? = some '/' then mirror else mirror ++ "/"

def urlRoot (env : Option String) : String := registryMirror env ++ "cpp-client"

def cppSdkVersion : String := "1.2.0"

inductive UrlError
  | route (rejection : Rejection)
  | unsupported (message : String)
  deriving DecidableEq

def linuxUrl (env : Option String) (distro : String) : String :=
  urlRoot env ++ "/linux/" ++ cppSdkVersion ++ "/" ++ distro ++ "/librocketmq.a"

def getUrlArray (env : Option String) (platform : String)
    (os : Except String (String × Option String)) : Except UrlError (List String) :=
  if platform = "win32" then
    .ok [urlRoot env ++ "/windows/" ++ cppSdkVersion ++ "/rocketmq-client-cpp.dll",
      urlRoot env ++ "/windows/" ++ cppSdkVersion ++ "/rocketmq-client-cpp.lib"]
  else if platform = "darwin" then
    .ok [urlRoot env ++ "/mac/" ++ cppSdkVersion ++ "/librocketmq.dylib"]
  else if platform = "linux" then
    match getLinuxDistroRoute os with
    | .ok distro => .ok [linuxUrl env distro.route]
    | .error rejection => .error (.route rejection)
  else .error (.unsupported ("Unsupported platform " ++ platform))

theorem getUrlArray_linux (env : Option String) (os : Except String (String × Option String)) :
    getUrlArray env "linux" os =
      match getLinuxDistroRoute os with
      | .ok distro => .ok [linuxUrl env distro.route]
      | .error rejection => .error (.route rejection) := rfl

theorem getUrlArray_ne_nil {env : Option String} {platform : String}
    {os : Except String (String × Option String)} {urls : List String}
    (h : getUrlArray env platform os = .ok urls) : urls ≠ [] := by
  unfold getUrlArray at h
  split_ifs at h
  · cases h
    simp
  · cases h
    simp
  · split at h <;> cases h
    simp

/-- A Linux URL names an existing library exactly when the release does not belong to a
Debian from 8 to 10, nor to a Red Hat whose version is a fraction. -/
theorem getUrlArray_known_iff (env : Option String) (dist : String) (release : Option String) :
    ((∀ route, getLinuxDistroRoute (.ok (dist, release)) = .ok route → route.route ∈ knownRoutes) ∧
        ∀ urls, getUrlArray env "linux" (.ok (dist, release)) = .ok urls →
          ∀ url ∈ urls, ∃ route ∈ knownRoutes, url = linuxUrl env route) ↔
      ¬ Slips dist release := by
  constructor
  · rintro ⟨hroute, -⟩ hslip
    obtain ⟨route, hok, hunknown⟩ := unknown_of_slips hslip
    exact hunknown (hroute route hok)
  · intro hslip
    refine ⟨fun route hok => known_of_not_slips hslip hok, fun urls hurls url hurl => ?_⟩
    rw [getUrlArray_linux] at hurls
    split at hurls
    · next distro hok =>
      cases hurls
      obtain rfl := List.mem_singleton.mp hurl
      exact ⟨distro.route, known_of_not_slips hslip hok, rfl⟩
    · cases hurls

theorem debian_route_unknown :
    getLinuxDistroRoute (.ok ("Debian", some "9.8")) = .ok ⟨"UBUNTU/5.5.04", none⟩ ∧
      "UBUNTU/5.5.04" ∉ knownRoutes ∧
      getLinuxDistroRoute (.ok ("Centos", some "55e-1")) = .ok ⟨"RHEL5.5.x", none⟩ ∧
      "RHEL5.5.x" ∉ knownRoutes := by
  decide +kernel

/-! The coroutine.  An unhandled rejection does not change the exit status, and a process
whose event loop is empty exits with 0. -/

/-- Where the generator is; `requesting` waits for the response to the first URL that has
no write stream yet. -/
inductive Phase
  | urls | mkdir | requesting | done | rejected
  deriving DecidableEq

structure Write where
  url : String
  finished : Bool := false
  deriving DecidableEq

structure Download where
  phase : Phase := .urls
  urls : List String := []
  writes : List Write := []
  writeTimes : Nat := 0
  exit : Option Nat := none

/-- `none` is a request that rejects. -/
inductive Outcome
  | urlArray
  | mkdirp (created : Bool)
  | response (status : Option Nat)
  | readError (i : Nat)
  | writeError (i : Nat)
  | finish (i : Nat)
  | loopEmpty
  deriving DecidableEq

namespace Download

def loop (s : Download) : Download :=
  { s with phase := if s.writes.length < s.urls.length then .requesting else .done }

def fail (s : Download) : Download := { s with exit := some 4 }

def streamError (s : Download) (i : Nat) : Option Download :=
  match s.writes[i]? with
  | some ⟨_, false⟩ => some s.fail
  | _ => none

def finish (s : Download) (i : Nat) (url : String) : Download :=
  { s with
    writes := s.writes.set i ⟨url, true⟩
    writeTimes := s.writeTimes + 1
    exit := if s.writeTimes + 1 = s.urls.length then some 0 else none }

def pipe (s : Download) (url : String) : Download :=
  { s with writes := s.writes ++ [⟨url, false⟩] }

def respond (s : Download) (status : Nat) : Option Download :=
  match s.urls[s.writes.length]? with
  | some url =>
    if status = 200 then some (s.pipe url).loop else some s.fail
  | none => none

def idle (s : Download) : Bool :=
  (s.phase = .done ∨ s.phase = .rejected) ∧ s.writes.all Write.finished

def step (result : Except UrlError (List String)) (s : Download) (e : Outcome) : Option Download :=
  if s.exit = none then
    match e with
    | .urlArray =>
      if s.phase = .urls then
        match result with
        | .ok urls => some { s with phase := .mkdir, urls := urls }
        | .error _ => some s.fail
      else none
    | .mkdirp created =>
      if s.phase = .mkdir then
        if created then some s.loop else some { s with phase := .rejected }
      else none
    | .response status =>
      if s.phase = .requesting then
        match status with
        | some status => s.respond status
        | none => some { s with phase := .rejected }
      else none
    | .readError i => s.streamError i
    | .writeError i => s.streamError i
    | .finish i =>
      match s.writes[i]? with
      | some ⟨url, false⟩ => some (s.finish i url)
      | _ => none
    | .loopEmpty => if s.idle then some { s with exit := some 0 } else none
  else none

end Download

def download (result : Except UrlError (List String)) : Machine Download Outcome where
  init := {}
  step := Download.step result

namespace Download

inductive Transition (result : Except UrlError (List String)) (s : Download) :
    Outcome → Download → Prop
  | urls {us : List String} : s.phase = .urls → result = .ok us →
      Transition result s .urlArray { s with phase := .mkdir, urls := us }
  | noUrls : s.phase = .urls → Transition result s .urlArray s.fail
  | created : s.phase = .mkdir → Transition result s (.mkdirp true) s.loop
  | uncreated : s.phase = .mkdir →
      Transition result s (.mkdirp false) { s with phase := .rejected }
  | opened : s.phase = .requesting → s.urls[s.writes.length]? = some url →
      Transition result s (.response (some 200)) (s.pipe url).loop
  | refused : s.phase = .requesting → Transition result s (.response (some status)) s.fail
  | rejected : s.phase = .requesting →
      Transition result s (.response none) { s with phase := .rejected }
  | streamError : e = .readError i ∨ e = .writeError i → s.writes[i]? = some ⟨url, false⟩ →
      Transition result s e s.fail
  | finished : s.writes[i]? = some ⟨url, false⟩ → Transition result s (.finish i) (s.finish i url)
  | loopEmpty : s.idle = true → Transition result s .loopEmpty { s with exit := some 0 }

theorem streamError_cases {result : Except UrlError (List String)} {s t : Download} {i : Nat}
    {e : Outcome} (he : e = .readError i ∨ e = .writeError i) (h : s.streamError i = some t) :
    Transition result s e t := by
  unfold Download.streamError at h
  split at h
  · next url hw =>
    cases h
    exact .streamError he hw
  · cases h

theorem respond_cases {result : Except UrlError (List String)} {s t : Download} {status : Nat}
    (hphase : s.phase = .requesting) (h : s.respond status = some t) :
    Transition result s (.response (some status)) t := by
  unfold Download.respond at h
  split at h
  · next url hurl =>
    split_ifs at h with hstatus <;> cases h
    · subst hstatus
      exact .opened hphase hurl
    · exact .refused hphase
  · cases h

theorem step_cases {result : Except UrlError (List String)} {s t : Download} {e : Outcome}
    (h : step result s e = some t) : s.exit = none ∧ Transition result s e t := by
  unfold step at h
  by_cases hexit : s.exit = none
  case neg =>
    rw [if_neg hexit] at h
    cases h
  rw [if_pos hexit] at h
  refine ⟨hexit, ?_⟩
  cases e with
  | urlArray =>
    dsimp only at h
    split_ifs at h with hphase
    split at h
    · cases h
      exact .urls hphase rfl
    · cases h
      exact .noUrls hphase
  | mkdirp created =>
    dsimp only at h
    split_ifs at h with hphase hcreated
    · cases h
      subst hcreated
      exact .created hphase
    · cases h
      obtain rfl : created = false := by simpa using hcreated
      exact .uncreated hphase
  | response status =>
    dsimp only at h
    split_ifs at h with hphase
    cases status with
    | some status => exact respond_cases hphase h
    | none =>
      cases h
      exact .rejected hphase
  | readError i => exact streamError_cases (.inl rfl) h
  | writeError i => exact streamError_cases (.inr rfl) h
  | finish i =>
    dsimp only at h
    split at h
    · next url hw =>
      cases h
      exact .finished hw
    · cases h
  | loopEmpty =>
    dsimp only at h
    split_ifs at h with hidle
    cases h
    exact .loopEmpty hidle

end Download

def AllWritten (s : Download) : Prop :=
  s.urls ≠ [] ∧ s.writes.map Write.url = s.urls ∧ ∀ w ∈ s.writes, w.finished = true

def StreamFails (es : List Outcome) : Prop := ∃ i, .readError i ∈ es ∨ .writeError i ∈ es

/-- The directory is created, and after a request that rejects an earlier download fails too. -/
def Guarded (es : List Outcome) : Prop :=
  .mkdirp false ∉ es ∧ (.response none ∈ es → StreamFails es)

theorem streamFails_concat {es : List Outcome} {e : Outcome} :
    StreamFails (es ++ [e]) ↔ StreamFails es ∨ ∃ i, e = .readError i ∨ e = .writeError i := by
  simp only [StreamFails, List.mem_append, List.mem_singleton, eq_comm (b := e)]
  constructor
  · rintro ⟨i, (h | h) | h | h⟩
    · exact .inl ⟨i, .inl h⟩
    · exact .inr ⟨i, .inl h⟩
    · exact .inl ⟨i, .inr h⟩
    · exact .inr ⟨i, .inr h⟩
  · rintro (⟨i, h | h⟩ | ⟨i, h | h⟩)
    · exact ⟨i, .inl (.inl h)⟩
    · exact ⟨i, .inr (.inl h)⟩
    · exact ⟨i, .inl (.inr h)⟩
    · exact ⟨i, .inr (.inr h)⟩

def Phase.Holds (s : Download) : Phase → Prop
  | .urls => s.writes = []
  | .mkdir => s.urls ≠ [] ∧ s.writes = []
  | .requesting => s.writes.length < s.urls.length
  | .done => s.urls ≠ [] ∧ s.writes.length = s.urls.length
  | .rejected => s.writes.length < s.urls.length

structure Tracked (es : List Outcome) (s : Download) : Prop where
  phase : s.phase.Holds s
  requested : s.writes.map Write.url = s.urls.take s.writes.length
  count : s.writeTimes = s.writes.countP Write.finished
  rejected : s.phase = .rejected ↔ .mkdirp false ∈ es ∨ .response none ∈ es
  uncreated : .mkdirp false ∈ es → s.writes = []
  streams : StreamFails es → s.writes ≠ [] ∧ s.exit = some 4
  succeeded : s.exit = some 0 → s.phase = .rejected ∨ AllWritten s
  failed : s.exit ≠ none → s.exit ≠ some 0 → s.phase = .rejected → StreamFails es

theorem Tracked.init : Tracked [] {} where
  phase := rfl
  requested := rfl
  count := rfl
  rejected := by simp
  uncreated := by simp
  streams := by simp [StreamFails]
  succeeded := by simp
  failed := by simp

section Step

variable {es : List Outcome} {s t : Download}

theorem Tracked.length_le (h : Tracked es s) : s.writes.length ≤ s.urls.length := by
  have := congrArg List.length h.requested
  rw [List.length_map, List.length_take] at this
  omega

theorem Tracked.allWritten (h : Tracked es s) (hurls : s.urls ≠ [])
    (hlength : s.writes.length = s.urls.length) (hall : ∀ w ∈ s.writes, w.finished = true) :
    AllWritten s :=
  ⟨hurls, by rw [h.requested, hlength, List.take_length], hall⟩

theorem Tracked.noFailure (h : Tracked es s) (hexit : s.exit = none) : ¬ StreamFails es := by
  intro hfails
  have := (h.streams hfails).2
  rw [hexit] at this
  cases this

theorem Tracked.noFailure_concat (h : Tracked es s) (hexit : s.exit = none) {e : Outcome}
    (he : ∀ i, e ≠ .readError i ∧ e ≠ .writeError i) : ¬ StreamFails (es ++ [e]) := by
  intro hfails
  obtain hfails | ⟨i, hi⟩ := streamFails_concat.mp hfails
  · exact h.noFailure hexit hfails
  · exact absurd hi (by simp [he i])

theorem Tracked.advance (h : Tracked es s) (hexit : s.exit = none) {e : Outcome}
    (hphase : t.phase.Holds t) (hrequested : t.writes.map Write.url = t.urls.take t.writes.length)
    (hcount : t.writeTimes = t.writes.countP Write.finished) (ht : t.exit = none)
    (hrejected : t.phase = .rejected ↔ s.phase = .rejected ∨ e = .mkdirp false ∨ e = .response none)
    (huncreated : .mkdirp false ∈ es ∨ e = .mkdirp false → t.writes = [])
    (he : ∀ i, e ≠ .readError i ∧ e ≠ .writeError i) : Tracked (es ++ [e]) t where
  phase := hphase
  requested := hrequested
  count := hcount
  rejected := by
    rw [hrejected, h.rejected]
    simp only [List.mem_append, List.mem_singleton, eq_comm (b := e)]
    tauto
  uncreated hmem := by
    simp only [List.mem_append, List.mem_singleton, eq_comm (b := e)] at hmem
    exact huncreated hmem
  streams hfails := absurd hfails (h.noFailure_concat hexit he)
  succeeded h0 := by rw [ht] at h0; cases h0
  failed h0 := absurd ht h0

theorem Tracked.loop (h : Tracked es s) (hexit : s.exit = none) (hphase : s.phase ≠ .rejected)
    (hurls : s.urls ≠ []) {writes : List Write} (hlength : writes.length ≤ s.urls.length)
    (hrequested : writes.map Write.url = s.urls.take writes.length)
    (hcount : s.writeTimes = writes.countP Write.finished) {e : Outcome}
    (hcreated : e ≠ .mkdirp false) (hresponse : e ≠ .response none)
    (he : ∀ i, e ≠ .readError i ∧ e ≠ .writeError i) :
    Tracked (es ++ [e]) ({ s with writes } : Download).loop := by
  have hnot : .mkdirp false ∉ es := fun hmem => hphase (h.rejected.mpr (.inl hmem))
  refine h.advance hexit ?_ hrequested hcount hexit ?_ ?_ he
  · unfold Download.loop
    dsimp only
    split_ifs with hlt
    · exact hlt
    · exact ⟨hurls, by dsimp only; omega⟩
  · unfold Download.loop
    dsimp only
    split_ifs <;> simp [hphase, hcreated, hresponse]
  · simp [hnot, hcreated]

theorem Tracked.fail (h : Tracked es s) (hexit : s.exit = none) {e : Outcome}
    (hcreated : e ≠ .mkdirp false) (hresponse : e ≠ .response none)
    (he : (∃ i, e = .readError i ∨ e = .writeError i) ∧ s.writes ≠ [] ∨
      (∀ i, e ≠ .readError i ∧ e ≠ .writeError i) ∧ s.phase ≠ .rejected) :
    Tracked (es ++ [e]) s.fail where
  phase := h.phase
  requested := h.requested
  count := h.count
  rejected := by
    rw [Download.fail, h.rejected]
    simp [hcreated.symm, hresponse.symm]
  uncreated hmem := h.uncreated (by simpa [hcreated.symm] using hmem)
  streams hfails := by
    obtain ⟨-, hne⟩ | ⟨hother, -⟩ := he
    · exact ⟨hne, rfl⟩
    · exact absurd hfails (h.noFailure_concat hexit hother)
  succeeded h0 := by cases h0
  failed _ _ hphase := by
    obtain ⟨hstream, -⟩ | ⟨-, hne⟩ := he
    · exact streamFails_concat.mpr (.inr hstream)
    · exact absurd hphase hne

theorem Tracked.opened (h : Tracked es s) (hexit : s.exit = none) (hphase : s.phase = .requesting)
    {url : String} (hurl : s.urls[s.writes.length]? = some url) :
    Tracked (es ++ [.response (some 200)]) (s.pipe url).loop := by
  obtain ⟨hlt, -⟩ := List.getElem?_eq_some_iff.mp hurl
  refine h.loop hexit (by simp [hphase]) (List.ne_nil_of_length_pos (by omega)) ?_ ?_ ?_
    (by simp) (by simp) (by simp)
  · simpa [Nat.succ_le_iff] using hlt
  · rw [List.map_append, h.requested, List.length_append, List.length_singleton,
      List.take_add_one, hurl]
    rfl
  · simp [h.count]

theorem map_url_set {writes : List Write} {i : Nat} {url : String}
    (hw : writes[i]? = some ⟨url, false⟩) :
    (writes.set i ⟨url, true⟩).map Write.url = writes.map Write.url := by
  apply List.ext_getElem?
  intro j
  rw [List.getElem?_map, List.getElem?_map, List.getElem?_set]
  split_ifs with hij hlt
  · simp [← hij, hw]
  · simp [← hij, List.getElem?_eq_none (Nat.le_of_not_lt hlt)]
  · rfl

theorem Tracked.finish_phase (h : Tracked es s) {i : Nat} {url : String} (hne : s.writes ≠ []) :
    s.phase.Holds (s.finish i url) := by
  have hphase := h.phase
  cases hp : s.phase <;> rw [hp] at hphase
  · exact absurd hphase hne
  · exact absurd hphase.2 hne
  all_goals simpa [Phase.Holds, Download.finish] using hphase

theorem Tracked.finish_count (h : Tracked es s) {i : Nat} {url : String}
    (hw : s.writes[i]? = some ⟨url, false⟩) :
    s.writeTimes + 1 = (s.writes.set i ⟨url, true⟩).countP Write.finished := by
  obtain ⟨hi, hget⟩ := List.getElem?_eq_some_iff.mp hw
  rw [List.countP_set hi, hget, h.count]
  simp

theorem Tracked.finish_allWritten (h : Tracked es s) {i : Nat} {url : String}
    (hw : s.writes[i]? = some ⟨url, false⟩) (hall : s.writeTimes + 1 = s.urls.length) :
    AllWritten (s.finish i url) := by
  have hcount := h.finish_count hw
  have hle := List.countP_le_length (p := Write.finished) (l := s.writes.set i ⟨url, true⟩)
  have hlength := h.length_le
  rw [← hcount, List.length_set] at hle
  have hurls : s.urls ≠ [] := List.ne_nil_of_length_pos (hall ▸ Nat.succ_pos _)
  have hwritten : ∀ w ∈ s.writes.set i ⟨url, true⟩, w.finished = true := by
    refine List.countP_eq_length.mp ?_
    rw [← hcount, List.length_set]
    omega
  refine ⟨hurls, ?_, hwritten⟩
  rw [Download.finish, map_url_set hw, h.requested, List.take_of_length_le (by omega)]

theorem finish_exit (s : Download) (i : Nat) (url : String) :
    (s.finish i url).exit = none ∨
      (s.finish i url).exit = some 0 ∧ s.writeTimes + 1 = s.urls.length := by
  unfold Download.finish
  dsimp only
  split_ifs with hall
  · exact .inr ⟨rfl, hall⟩
  · exact .inl rfl

theorem Tracked.finish (h : Tracked es s) (hexit : s.exit = none) {i : Nat} {url : String}
    (hw : s.writes[i]? = some ⟨url, false⟩) : Tracked (es ++ [.finish i]) (s.finish i url) := by
  have hne : s.writes ≠ [] := by
    intro hnil
    simp [hnil] at hw
  have hfinish := finish_exit s i url
  refine ⟨h.finish_phase hne, ?_, h.finish_count hw, ?_, ?_, ?_, fun h0 => ?_, fun hsome h0 => ?_⟩
  · exact (map_url_set hw).trans (by simpa [Download.finish] using h.requested)
  · simpa [Download.finish] using h.rejected
  · intro hmem
    exact absurd (h.uncreated (by simpa using hmem)) hne
  · exact fun hfails => absurd hfails (h.noFailure_concat hexit (by simp))
  · obtain hnone | ⟨-, hall⟩ := hfinish
    · rw [h0] at hnone
      cases hnone
    · exact .inr (h.finish_allWritten hw hall)
  · exact absurd hfinish (by simp [hsome, h0])

theorem Tracked.idle (h : Tracked es s) (hexit : s.exit = none) (hidle : s.idle = true) :
    Tracked (es ++ [.loopEmpty]) { s with exit := some 0 } := by
  obtain ⟨hphase, hall⟩ : (s.phase = .done ∨ s.phase = .rejected) ∧
      ∀ w ∈ s.writes, w.finished = true := by
    simpa [Download.idle] using hidle
  refine ⟨h.phase, h.requested, h.count, ?_, ?_, ?_, fun _ => ?_, fun _ h0 => absurd rfl h0⟩
  · simpa using h.rejected
  · simpa using h.uncreated
  · exact fun hfails => absurd hfails (h.noFailure_concat hexit (by simp))
  · obtain hdone | hrejected := hphase
    · have hholds := h.phase
      rw [hdone] at hholds
      exact .inr (h.allWritten hholds.1 hholds.2 hall)
    · exact .inl hrejected

theorem Tracked.step {result : Except UrlError (List String)}
    (hresult : ∀ urls, result = .ok urls → urls ≠ []) {e : Outcome} (h : Tracked es s)
    (hst : (download result).step s e = some t) : Tracked (es ++ [e]) t := by
  obtain ⟨hexit, htransition⟩ := Download.step_cases hst
  have hphase := h.phase
  cases htransition with
  | urls hurls hok =>
    rw [hurls] at hphase
    have hnil : s.writes = [] := hphase
    refine h.advance hexit ⟨hresult _ hok, hnil⟩ (by simp [hnil]) h.count hexit ?_ ?_ (by simp)
    · simp [hurls]
    · exact fun _ => hnil
  | noUrls hurls => exact h.fail hexit (by simp) (by simp) (.inr ⟨by simp, by simp [hurls]⟩)
  | created hmkdir =>
    rw [hmkdir] at hphase
    exact h.loop hexit (by simp [hmkdir]) hphase.1 h.length_le h.requested h.count (by simp)
      (by simp) (by simp)
  | uncreated hmkdir =>
    rw [hmkdir] at hphase
    obtain ⟨hurls, hnil⟩ := hphase
    have hlength : s.writes.length < s.urls.length := by
      simpa [hnil] using List.length_pos_iff.mpr hurls
    exact h.advance hexit hlength h.requested h.count hexit (by simp) (fun _ => hnil) (by simp)
  | opened hrequesting hurl => exact h.opened hexit hrequesting hurl
  | refused hrequesting =>
    exact h.fail hexit (by simp) (by simp) (.inr ⟨by simp, by simp [hrequesting]⟩)
  | rejected hrequesting =>
    rw [hrequesting] at hphase
    refine h.advance hexit hphase h.requested h.count hexit (by simp) (fun hmem => ?_) (by simp)
    exact h.uncreated (by simpa using hmem)
  | @streamError _ i _ he hw =>
    have hne : s.writes ≠ [] := by
      rintro hnil
      simp [hnil] at hw
    refine h.fail hexit ?_ ?_ (.inl ⟨⟨i, he⟩, hne⟩) <;> obtain rfl | rfl := he <;> simp
  | finished hw => exact h.finish hexit hw
  | loopEmpty hidle => exact h.idle hexit hidle

def Phase.rank : Phase → Nat
  | .urls => 0
  | .mkdir => 1
  | .requesting => 2
  | .done => 2
  | .rejected => 3

def Download.spent (s : Download) : Nat :=
  s.phase.rank + s.writes.length + s.writeTimes + if s.exit = none then 0 else 1

theorem loop_rank (s : Download) : s.loop.phase.rank = 2 := by
  unfold Download.loop
  dsimp only
  split_ifs <;> rfl

theorem spent_loop (s : Download) (hexit : s.exit = none) :
    s.loop.spent = 2 + s.writes.length + s.writeTimes := by
  rw [Download.spent, loop_rank, Download.loop]
  simp [hexit]

theorem spent_lt {result : Except UrlError (List String)} {e : Outcome}
    (hst : (download result).step s e = some t) : s.spent < t.spent := by
  obtain ⟨hexit, htransition⟩ := Download.step_cases hst
  have hspent : s.spent = s.phase.rank + s.writes.length + s.writeTimes := by
    simp [Download.spent, hexit]
  rw [hspent]
  cases htransition with
  | urls hphase | uncreated hphase | rejected hphase =>
    simp [Download.spent, Phase.rank, hphase, hexit]
  | noUrls | refused | streamError | loopEmpty => simp [Download.spent, Download.fail]
  | created hphase =>
    rw [spent_loop s hexit, hphase]
    simp [Phase.rank]
  | opened hphase =>
    rw [spent_loop (s.pipe _) hexit, hphase]
    simp [Phase.rank, Download.pipe]
  | finished =>
    simp only [Download.spent, Download.finish, List.length_set]
    omega

theorem exists_step (result : Except UrlError (List String)) (hexit : s.exit = none) :
    ∃ e t, (download result).step s e = some t := by
  cases hphase : s.phase with
  | urls =>
    cases hresult : result with
    | ok urls => exact ⟨.urlArray, _, by simp [download, Download.step, hexit, hphase]; rfl⟩
    | error err => exact ⟨.urlArray, _, by simp [download, Download.step, hexit, hphase]; rfl⟩
  | mkdir => exact ⟨.mkdirp true, s.loop, by simp [download, Download.step, hexit, hphase]⟩
  | requesting =>
    exact ⟨.response none, _, by simp [download, Download.step, hexit, hphase]; rfl⟩
  | done | rejected =>
    by_cases hall : ∀ w ∈ s.writes, w.finished = true
    · have hidle : s.idle = true := by simpa [Download.idle, hphase] using hall
      exact ⟨.loopEmpty, _, by simp [download, Download.step, hexit, hidle]; rfl⟩
    · simp only [not_forall] at hall
      obtain ⟨⟨url, finished⟩, hw, hfinished⟩ := hall
      obtain ⟨i, hi⟩ := List.mem_iff_getElem?.mp hw
      have : finished = false := by simpa using hfinished
      subst this
      exact ⟨.finish i, _, by simp [download, Download.step, hexit, hi]; rfl⟩

end Step

section Exit

variable {env : Option String} {platform : String} {os : Except String (String × Option String)}
  {es : List Outcome} {s : Download}

theorem tracked_of_exec (h : (download (getUrlArray env platform os)).exec {} es = some s) :
    Tracked es s :=
  Machine.exec_history (M := download (getUrlArray env platform os)) Tracked.init
    (fun _ _ _ _ hs hst => hs.step (fun _ hurls => getUrlArray_ne_nil hurls) hst) h

/-- Every run ends: at most two things happen to a URL, and four to the rest of the script. -/
theorem exec_length_le (h : (download (getUrlArray env platform os)).exec {} es = some s) :
    es.length ≤ 2 * s.urls.length + 4 := by
  have hspent : es.length ≤ s.spent := by
    refine Machine.exec_history (M := download (getUrlArray env platform os))
      (I := fun es s => es.length ≤ s.spent) (Nat.zero_le _) (fun fs u e v hu huv => ?_) h
    have := spent_lt huv
    rw [List.length_append, List.length_singleton]
    omega
  have ht := tracked_of_exec h
  have hlength := ht.length_le
  have hcount := List.countP_le_length (p := Write.finished) (l := s.writes)
  rw [← ht.count] at hcount
  have hrank : s.phase.rank ≤ 3 := by cases s.phase <;> decide
  unfold Download.spent at hspent
  split_ifs at hspent <;> omega

theorem Tracked.not_allWritten (h : Tracked es s) (hphase : s.phase = .rejected) :
    ¬ AllWritten s := by
  rintro ⟨-, hurls, -⟩
  have hlt := h.phase
  rw [hphase] at hlt
  have hlength := congrArg List.length hurls
  rw [List.length_map] at hlength
  exact absurd hlength hlt.ne

/-- The script ends with status 0 only if every library has been written, exactly when the
directory is created and no request rejects, or a download fails after one that does. -/
theorem exit_iff_guarded {status : Nat}
    (h : (download (getUrlArray env platform os)).exec {} es = some s)
    (hexit : s.exit = some status) : (status = 0 → AllWritten s) ↔ Guarded es := by
  have ht := tracked_of_exec h
  by_cases hphase : s.phase = .rejected
  · constructor
    · intro hzero
      have hstatus : s.exit ≠ some 0 := by
        rw [hexit]
        intro h0
        cases h0
        exact ht.not_allWritten hphase (hzero rfl)
      have hfails := ht.failed (by simp [hexit]) hstatus hphase
      exact ⟨fun hmem => (ht.streams hfails).1 (ht.uncreated hmem), fun _ => hfails⟩
    · rintro ⟨hcreated, hresponse⟩ rfl
      obtain hmem | hmem := ht.rejected.mp hphase
      · exact absurd hmem hcreated
      · have := (ht.streams (hresponse hmem)).2
        rw [hexit] at this
        cases this
  · have hnone := mt ht.rejected.mpr hphase
    refine ⟨fun _ => ⟨fun hmem => hnone (.inl hmem), fun hmem => absurd (.inr hmem) hnone⟩, ?_⟩
    rintro - rfl
    exact (ht.succeeded hexit).resolve_left hphase

theorem exit_iff_guarded_lateError :
    ∃ s, (download (getUrlArray none "win32" (.error "no os"))).exec {}
        [.urlArray, .mkdirp true, .response (some 200), .response none, .writeError 0] = some s ∧
      s.exit = some 4 ∧
      ((4 = 0 → AllWritten s) ↔ Guarded
        [.urlArray, .mkdirp true, .response (some 200), .response none, .writeError 0]) :=
  ⟨_, rfl, rfl, @exit_iff_guarded none "win32" (.error "no os") _ _ 4 rfl rfl⟩

theorem exits_zero_without_library :
    (∃ s, (download (getUrlArray none "darwin" (.error "no os"))).exec {}
        [.urlArray, .mkdirp false, .loopEmpty] = some s ∧ s.exit = some 0 ∧ ¬ AllWritten s) ∧
      ∃ s, (download (getUrlArray none "darwin" (.error "no os"))).exec {}
        [.urlArray, .mkdirp true, .response none, .loopEmpty] = some s ∧
        s.exit = some 0 ∧ ¬ AllWritten s := by
  refine ⟨⟨_, rfl, rfl, fun h => ?_⟩, _, rfl, rfl, fun h => ?_⟩ <;> cases h.2.1

end Exit

end RocketMQClient.Script
