import SaveContainer.CommandLine.Outcome
import SaveContainer.Graph
import SaveContainer.Main
import SaveContainer.Proofs.Agreement
import SaveContainer.Proofs.Alike
import SaveContainer.Proofs.CatalogueGrowth
import SaveContainer.Proofs.CatalogueView
import SaveContainer.Proofs.Command
import SaveContainer.Proofs.Containment
import SaveContainer.Proofs.Detection
import SaveContainer.Proofs.DiskPrinting
import SaveContainer.Proofs.DiskTree
import SaveContainer.Proofs.GraphPrinting
import SaveContainer.Proofs.HandleDiscipline
import SaveContainer.Proofs.HandleIndependence
import SaveContainer.Proofs.HandleLog
import SaveContainer.Proofs.LimitedPrinting
import SaveContainer.Proofs.Lookup
import SaveContainer.Proofs.LostDirectories
import SaveContainer.Proofs.MemberLayout
import SaveContainer.Proofs.MemberShape
import SaveContainer.Proofs.NameCells
import SaveContainer.Proofs.NameText
import SaveContainer.Proofs.PackedLookup
import SaveContainer.Proofs.PackedPrinting
import SaveContainer.Proofs.PackedTree
import SaveContainer.Proofs.PathBelow
import SaveContainer.Proofs.PathNumbers
import SaveContainer.Proofs.Quiet
import SaveContainer.Proofs.Rebuilding
import SaveContainer.Proofs.Refusal
import SaveContainer.Proofs.Runs
import SaveContainer.Proofs.SharedTables
import SaveContainer.Proofs.ShownTree
import SaveContainer.Proofs.StableNumbers
import SaveContainer.Proofs.Tour
import SaveContainer.Session
