import BootImage.Command.Args
import BootImage.Command.Run
import BootImage.Device
import BootImage.Fault
import BootImage.FileTree
import BootImage.Image.Execution
import BootImage.Image.Reading
import BootImage.Layout.Draft
import BootImage.Layout.Plan
import BootImage.Main
import BootImage.Proofs.Command.Loading
import BootImage.Proofs.Command.Run
import BootImage.Proofs.Device
import BootImage.Proofs.Device.LastWrites
import BootImage.Proofs.Device.Sinks
import BootImage.Proofs.FileTree.Opening
import BootImage.Proofs.FileTree.Output
import BootImage.Proofs.Image.Accepting
import BootImage.Proofs.Image.Calls
import BootImage.Proofs.Image.Decoding
import BootImage.Proofs.Image.Failing
import BootImage.Proofs.Image.Filling
import BootImage.Proofs.Image.Overwriting
import BootImage.Proofs.Image.ReadFirst
import BootImage.Proofs.Image.Repeating
import BootImage.Proofs.Image.RoundTrip
import BootImage.Proofs.Image.Sparing
import BootImage.Proofs.Image.Stopping
import BootImage.Proofs.Image.Walking
import BootImage.Proofs.Image.Written
import BootImage.Proofs.Layout.Accounting
import BootImage.Proofs.Layout.Capacity
import BootImage.Proofs.Layout.Checked
import BootImage.Proofs.Layout.Cutting
import BootImage.Proofs.Layout.Drafts
import BootImage.Proofs.Layout.Laid
import BootImage.Proofs.Layout.Likeness
import BootImage.Proofs.Layout.Pointers
import BootImage.Proofs.Layout.Region
import BootImage.Proofs.Layout.Splitting
import BootImage.Proofs.Layout.Tiling
import BootImage.Proofs.Lists
import BootImage.Proofs.Name
import BootImage.Proofs.Random.Words
import BootImage.Proofs.Record
import BootImage.Proofs.Record.Fields
import BootImage.Proofs.Record.Names
import BootImage.Proofs.Sector
import BootImage.Proofs.Source.Delivery
import BootImage.Proofs.Source.Losing
import BootImage.Random
import BootImage.Record
import BootImage.Sector
import BootImage.Source
import BootImage.Text
import BootImage.Text.Unprintable
