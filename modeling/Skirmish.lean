import Skirmish.Enemy.Exchange
import Skirmish.Main
import Skirmish.Proofs.Encounter.Accounting
import Skirmish.Proofs.Encounter.Agreement
import Skirmish.Proofs.Encounter.Composition
import Skirmish.Proofs.Encounter.Faultless
import Skirmish.Proofs.Encounter.Loading
import Skirmish.Proofs.Encounter.Untraced
import Skirmish.Proofs.Enemy.Detection
import Skirmish.Proofs.Enemy.Lead
import Skirmish.Proofs.Enemy.Limits
import Skirmish.Proofs.Enemy.Lives
import Skirmish.Proofs.Enemy.Refinement
import Skirmish.Proofs.Enemy.Route
import Skirmish.Proofs.Enemy.Standstill
import Skirmish.Proofs.Geometry.Angles
import Skirmish.Proofs.Geometry.Lengths
import Skirmish.Proofs.Json.RoundTrip
import Skirmish.Proofs.Random.Ranges
import Skirmish.Proofs.Random.Seeds
import Skirmish.Proofs.Tree.Conservation
import Skirmish.Proofs.Tree.Duality
import Skirmish.Proofs.Tree.Grouping
import Skirmish.Proofs.Tree.Order
import Skirmish.Proofs.Tree.Reports
import Skirmish.Proofs.Tuning.Overlay
import Skirmish.Proofs.Tuning.Requirements
import Skirmish.Proofs.Yaml.Anchors
import Skirmish.Proofs.Yaml.Tables
import Skirmish.Random.Replay
import Skirmish.Tree.Puppet
