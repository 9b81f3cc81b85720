import Libx.NetScan.Nmap

set_option autoImplicit false

namespace Libx.NetScan

def containsText (what line : Text) : Bool := (Search.findFrom what line 0).isSome

def isInet (line : Text) : Bool := containsText "inet ".toList line
def isEther (line : Text) : Bool := containsText "ether ".toList line

-- The locals of process_ifconfig and the vector it appends to.
structure IfconfigState where
  bip : Bool
  bmac : Bool
  ip : Text
  mac : Text
  v : List MacIp

def IfconfigState.reset (s : IfconfigState) : IfconfigState := { s with bip := false, bmac := false, ip := [], mac := [] }

section Loop

variable (regexSearch : Text → Text → List Text) (interfaces : List Text)

-- The inner loop: the line names one of the interfaces.
def startsInterface (line : Text) : Bool := interfaces.any fun nic => containsText nic line

def IfconfigState.push (s : IfconfigState) : IfconfigState :=
  if s.bip && s.bmac then { s.reset with v := s.v ++ [(s.mac.map Char.toUpper, s.ip, "(me,ifconfig)".toList)] } else s

def IfconfigState.start (s : IfconfigState) (iter : Text) : IfconfigState :=
  if startsInterface interfaces iter then s.reset else s

def IfconfigState.inet (s : IfconfigState) (iter : Text) : IfconfigState :=
  if isInet iter then { s with bip := (getIpAddress regexSearch iter).1, ip := (getIpAddress regexSearch iter).2 } else s

def IfconfigState.ether (s : IfconfigState) (iter : Text) : IfconfigState :=
  if isEther iter then { s with bmac := (getMacAddress regexSearch iter).1, mac := (getMacAddress regexSearch iter).2 } else s

def IfconfigState.line (s : IfconfigState) (iter : Text) : IfconfigState :=
  (((s.start interfaces iter).inet regexSearch iter).ether regexSearch iter).push

def processIfconfig (v : List MacIp) (ifconfigOutput : List Text) : List MacIp :=
  (ifconfigOutput.foldl (IfconfigState.line regexSearch interfaces) ⟨false, false, [], [], v⟩).v

end Loop

def cutBefore (starts : Text → Bool) : List Text → List Text → List (List Text)
  | block, [] => [block]
  | block, line :: rest => if starts line then block :: cutBefore starts [line] rest else cutBefore starts (block ++ [line]) rest

def interfaceBlocks (interfaces : List Text) (output : List Text) : List (List Text) :=
  cutBefore (startsInterface interfaces) [] output

section Blocks

variable (regexSearch : Text → Text → List Text) (interfaces : List Text)

def IfconfigState.after (front : List MacIp) (s : IfconfigState) : IfconfigState := { s with v := front ++ s.v }

theorem push_after (front : List MacIp) (s : IfconfigState) : (s.after front).push = s.push.after front := by
  obtain ⟨bip, bmac, ip, mac, v⟩ := s
  cases bip <;> cases bmac <;> simp [IfconfigState.push, IfconfigState.after, IfconfigState.reset]

theorem line_after (front : List MacIp) (s : IfconfigState) (iter : Text) :
    (s.after front).line regexSearch interfaces iter = (s.line regexSearch interfaces iter).after front := by
  have starts : (s.after front).start interfaces iter = (s.start interfaces iter).after front := by
    rw [IfconfigState.start, IfconfigState.start]
    split <;> rfl
  have inets (s : IfconfigState) : (s.after front).inet regexSearch iter = (s.inet regexSearch iter).after front := by
    rw [IfconfigState.inet, IfconfigState.inet]
    split <;> rfl
  have ethers (s : IfconfigState) : (s.after front).ether regexSearch iter = (s.ether regexSearch iter).after front := by
    rw [IfconfigState.ether, IfconfigState.ether]
    split <;> rfl
  rw [IfconfigState.line, IfconfigState.line, starts, inets, ethers, push_after]

theorem lines_after (front : List MacIp) (s : IfconfigState) (lines : List Text) :
    lines.foldl (IfconfigState.line regexSearch interfaces) (s.after front) =
      (lines.foldl (IfconfigState.line regexSearch interfaces) s).after front := by
  induction lines generalizing s with
  | nil => rfl
  | cons iter lines ih => rw [List.foldl_cons, List.foldl_cons, line_after, ih]

theorem process_from (v : List MacIp) (lines : List Text) :
    processIfconfig regexSearch interfaces v lines = v ++ processIfconfig regexSearch interfaces [] lines := by
  have begins : (⟨false, false, [], [], v⟩ : IfconfigState) = IfconfigState.after v ⟨false, false, [], [], []⟩ := by
    simp [IfconfigState.after]
  rw [processIfconfig, begins, lines_after]
  rfl

theorem line_restarts (s : IfconfigState) (iter : Text) (starts : startsInterface interfaces iter = true) :
    s.line regexSearch interfaces iter = IfconfigState.line regexSearch interfaces ⟨false, false, [], [], s.v⟩ iter := by
  rw [IfconfigState.line, IfconfigState.line, IfconfigState.start, IfconfigState.start, if_pos starts, if_pos starts]
  rfl

theorem process_restarts (block rest : List Text) (iter : Text) (starts : startsInterface interfaces iter = true) :
    processIfconfig regexSearch interfaces [] (block ++ iter :: rest) =
      processIfconfig regexSearch interfaces [] block ++ processIfconfig regexSearch interfaces [] (iter :: rest) := by
  rw [← process_from, processIfconfig, processIfconfig, processIfconfig, List.foldl_append, List.foldl_cons, List.foldl_cons,
    line_restarts regexSearch interfaces _ iter starts]

theorem process_blocks (block output : List Text) :
    processIfconfig regexSearch interfaces [] (block ++ output) =
      (cutBefore (startsInterface interfaces) block output).flatMap (processIfconfig regexSearch interfaces []) := by
  induction output generalizing block with
  | nil => simp [cutBefore]
  | cons line rest ih =>
      by_cases starts : startsInterface interfaces line = true
      · rw [cutBefore, if_pos starts, List.flatMap_cons, ← ih [line], process_restarts _ _ block rest line starts,
          List.singleton_append]
      · rw [cutBefore, if_neg starts, ← ih (block ++ [line]), List.append_cons]

end Blocks

section Block

variable (regexSearch : Text → Text → List Text) (interfaces : List Text)

def holding (inet ether : Option Text) (v : List MacIp) : IfconfigState :=
  ⟨inet.isSome, ether.isSome, inet.getD [], ether.getD [], v⟩

def listed : Option Text → Option Text → List MacIp
  | some ip, some mac => [(mac.map Char.toUpper, ip, "(me,ifconfig)".toList)]
  | _, _ => []

def Matched (line : Text) : Prop :=
  (isInet line = true → (getIpAddress regexSearch line).1 = true) ∧ (isEther line = true → (getMacAddress regexSearch line).1 = true)

def inetOf (line : Text) : Option Text := if isInet line then some (getIpAddress regexSearch line).2 else none
def etherOf (line : Text) : Option Text := if isEther line then some (getMacAddress regexSearch line).2 else none

def interfacePair (block : List Text) : List MacIp :=
  listed (block.findSome? (inetOf regexSearch)) (block.findSome? (etherOf regexSearch))

def Single (lines : List Text) : Prop :=
  (lines.filterMap (inetOf regexSearch)).length ≤ 1 ∧ (lines.filterMap (etherOf regexSearch)).length ≤ 1

theorem push_holding (inet ether : Option Text) (v : List MacIp) :
    (holding inet ether v).push = if inet.isSome ∧ ether.isSome then holding none none (v ++ listed inet ether) else holding inet ether v := by
  cases inet <;> cases ether <;> simp [holding, IfconfigState.push, IfconfigState.reset, listed]

theorem line_holding (inet ether : Option Text) (v : List MacIp) (line : Text)
    (plain : inet = none ∧ ether = none ∨ startsInterface interfaces line = false)
    (matched : Matched regexSearch line) :
    (holding inet ether v).line regexSearch interfaces line =
      (holding ((inetOf regexSearch line).or inet) ((etherOf regexSearch line).or ether) v).push := by
  have starts : (holding inet ether v).start interfaces line = holding inet ether v := by
    rcases plain with ⟨rfl, rfl⟩ | within
    · rw [IfconfigState.start]
      split <;> rfl
    · rw [IfconfigState.start, if_neg (by simp [within])]
  have inets : (holding inet ether v).inet regexSearch line = holding ((inetOf regexSearch line).or inet) ether v := by
    rw [IfconfigState.inet, inetOf]
    split
    · rename_i has
      simp [holding, matched.1 has]
    · rfl
  have ethers (inet : Option Text) :
      (holding inet ether v).ether regexSearch line = holding inet ((etherOf regexSearch line).or ether) v := by
    rw [IfconfigState.ether, etherOf]
    split
    · rename_i has
      simp [holding, matched.2 has]
    · rfl
  rw [IfconfigState.line, starts, inets, ethers]

theorem first_or (seen : Text → Option Text) (kept : Option Text) (line : Text) (rest : List Text)
    (once : (kept.toList ++ (line :: rest).filterMap seen).length ≤ 1) :
    (((seen line).or kept).toList ++ rest.filterMap seen).length ≤ 1 ∧
      ((seen line).or kept).or (rest.findSome? seen) = kept.or ((line :: rest).findSome? seen) := by
  cases here : seen line with
  | none => simpa [here, List.findSome?_cons] using once
  | some found =>
      cases kept with
      | none => simpa [here, List.findSome?_cons] using once
      | some other => simp [here] at once

theorem first_none (seen : Text → Option Text) (kept : Option Text) (rest : List Text) (has : kept.isSome = true)
    (once : (kept.toList ++ rest.filterMap seen).length ≤ 1) : rest.filterMap seen = [] ∧ rest.findSome? seen = none := by
  obtain ⟨found, rfl⟩ := Option.isSome_iff_exists.mp has
  have nothing : rest.filterMap seen = [] := by
    apply List.length_eq_zero_iff.mp
    simp only [Option.toList_some, List.singleton_append, List.length_cons] at once
    omega
  refine ⟨nothing, List.findSome?_eq_none_iff.mpr fun line member => ?_⟩
  exact List.filterMap_eq_nil_iff.mp nothing line member

theorem block_lists (rest : List Text) (plain : ∀ line ∈ rest.tail, startsInterface interfaces line = false)
    (matched : ∀ line ∈ rest, Matched regexSearch line) (inet ether : Option Text) (v : List MacIp)
    (first : inet = none ∧ ether = none ∨ ∀ line ∈ rest, startsInterface interfaces line = false)
    (inetOnce : (inet.toList ++ rest.filterMap (inetOf regexSearch)).length ≤ 1)
    (etherOnce : (ether.toList ++ rest.filterMap (etherOf regexSearch)).length ≤ 1) (apart : ¬ (inet.isSome ∧ ether.isSome)) :
    (rest.foldl (IfconfigState.line regexSearch interfaces) (holding inet ether v)).v =
      v ++ listed (inet.or (rest.findSome? (inetOf regexSearch))) (ether.or (rest.findSome? (etherOf regexSearch))) := by
  induction rest generalizing inet ether v with
  | nil =>
      cases inet with
      | none => simp [holding, listed]
      | some ip =>
          cases ether with
          | none => simp [holding, listed]
          | some mac => simp at apart
  | cons line rest ih =>
      have plainRest : ∀ other ∈ rest.tail, startsInterface interfaces other = false :=
        fun other member => plain other (List.mem_of_mem_tail member)
      have here := first.imp_right fun all => all line List.mem_cons_self
      have matchedRest := fun other member => matched other (List.mem_cons_of_mem line member)
      obtain ⟨inetLeft, inetFirst⟩ := first_or (inetOf regexSearch) inet line rest inetOnce
      obtain ⟨etherLeft, etherFirst⟩ := first_or (etherOf regexSearch) ether line rest etherOnce
      rw [List.foldl_cons, line_holding regexSearch interfaces inet ether v line here
        (matched line List.mem_cons_self), push_holding, ← inetFirst, ← etherFirst]
      by_cases both : ((inetOf regexSearch line).or inet).isSome = true ∧ ((etherOf regexSearch line).or ether).isSome = true
      · obtain ⟨noInet, inetNone⟩ := first_none _ _ rest both.1 inetLeft
        obtain ⟨noEther, etherNone⟩ := first_none _ _ rest both.2 etherLeft
        rw [if_pos both, ih plainRest matchedRest none none _ (.inr plain) (by simp [noInet]) (by simp [noEther]) (by simp), inetNone, etherNone]
        simp [listed]
      · rw [if_neg both, ih plainRest matchedRest _ _ v (.inr plain) inetLeft etherLeft both]

theorem process_block (block : List Text) (plain : ∀ line ∈ block.tail, startsInterface interfaces line = false)
    (matched : ∀ line ∈ block, Matched regexSearch line) (single : Single regexSearch block) :
    processIfconfig regexSearch interfaces [] block = interfacePair regexSearch block := by
  rw [← List.nil_append (interfacePair regexSearch block), interfacePair]
  exact block_lists regexSearch interfaces block plain matched none none [] (.inl ⟨rfl, rfl⟩) (by simpa using single.1)
    (by simpa using single.2) (by simp)

end Block

theorem cut_before_tail (starts : Text → Bool) (block output : List Text) (plain : ∀ line ∈ block.tail, starts line = false) :
    ∀ piece ∈ cutBefore starts block output, ∀ line ∈ piece.tail, starts line = false := by
  induction output generalizing block with
  | nil =>
      intro piece member
      obtain rfl := List.mem_singleton.mp member
      exact plain
  | cons line rest ih =>
      rw [cutBefore]
      by_cases begins : starts line = true
      · rw [if_pos begins]
        intro piece member
        rcases List.mem_cons.mp member with rfl | later
        · exact plain
        · exact ih [line] (fun _ absent => absurd absent List.not_mem_nil) piece later
      · rw [if_neg begins]
        refine ih (block ++ [line]) fun other member => ?_
        cases block with
        | nil => exact absurd member List.not_mem_nil
        | cons head tail =>
            rcases List.mem_append.mp member with old | last
            · exact plain other old
            · exact List.mem_singleton.mp last ▸ Bool.not_eq_true _ ▸ begins

theorem cut_before_flatten (starts : Text → Bool) (block output : List Text) :
    (cutBefore starts block output).flatten = block ++ output := by
  induction output generalizing block with
  | nil => simp [cutBefore]
  | cons line rest ih =>
      rw [cutBefore]
      split
      · rw [List.flatten_cons, ih, List.singleton_append]
      · rw [ih, List.append_assoc, List.singleton_append]

theorem ifconfig_paired (regexSearch : Text → Text → List Text) (interfaces : List Text) (v : List MacIp) (output : List Text) :
    (interfaceBlocks interfaces output).flatten = output ∧
      processIfconfig regexSearch interfaces v output =
        v ++ (interfaceBlocks interfaces output).flatMap (processIfconfig regexSearch interfaces []) ∧
      ∀ block ∈ interfaceBlocks interfaces output, (∀ line ∈ block, Matched regexSearch line) → Single regexSearch block →
        processIfconfig regexSearch interfaces [] block = interfacePair regexSearch block := by
  refine ⟨cut_before_flatten _ [] output, ?_, ?_⟩
  · rw [process_from, interfaceBlocks, ← process_blocks, List.nil_append]
  · intro block member matched single
    exact process_block regexSearch interfaces block
      (cut_before_tail _ [] output (fun _ absent => absurd absent List.not_mem_nil) block member) matched single

def ifconfigLines : List Text :=
  ["wlp1s0: flags=4163".toList, "inet 192.168.0.108".toList, "ether 70:66:55:cd:cc:d5".toList, "lo: flags=73".toList,
    "inet 127.0.0.1".toList]

def ifconfigSearch (subject regex : Text) : List Text :=
  if subject = "inet 192.168.0.108".toList ∧ regex = ipRegex then ["192.168.0.108".toList]
  else if subject = "inet 127.0.0.1".toList ∧ regex = ipRegex then ["127.0.0.1".toList]
  else if subject = "ether 70:66:55:cd:cc:d5".toList ∧ regex = macRegex then ["70:66:55:cd:cc:d5".toList, "cc:".toList]
  else []

theorem ifconfig_paired_lines :
    ∀ block ∈ interfaceBlocks ["lo:".toList, "wlp1s0".toList] ifconfigLines,
      processIfconfig ifconfigSearch ["lo:".toList, "wlp1s0".toList] [] block = interfacePair ifconfigSearch block := by
  have legal : ∀ block ∈ interfaceBlocks ["lo:".toList, "wlp1s0".toList] ifconfigLines,
      (∀ line ∈ block, (isInet line = true → (getIpAddress ifconfigSearch line).1 = true) ∧
        (isEther line = true → (getMacAddress ifconfigSearch line).1 = true)) ∧
      (block.filterMap (inetOf ifconfigSearch)).length ≤ 1 ∧ (block.filterMap (etherOf ifconfigSearch)).length ≤ 1 := by
    decide +kernel
  intro block member
  exact (ifconfig_paired ifconfigSearch ["lo:".toList, "wlp1s0".toList] [] ifconfigLines).2.2 block member
    (legal block member).1 (legal block member).2

end Libx.NetScan
